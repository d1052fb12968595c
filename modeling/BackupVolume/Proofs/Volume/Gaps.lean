import BackupVolume.Proofs.Volume.Recording
import BackupVolume.Proofs.Volume.Remains
import Mathlib.Data.List.DropRight

/-! # Blocks that are missing without a trace

Whether a piece goes on with the waiting record is told by file index, tag and the number of
outstanding octets alone. Where blocks are missing a record may therefore be completed with the end
of another one, but only with that of a record which has the same file index and tag and was cut
with as many octets outstanding.
-/
namespace BackupVolume

namespace Placed

/-- How many octets are outstanding wherever a record with these pieces goes on. -/
def cuts (qs : List Placed) : List Nat := qs.tail.map fun q => q.piece.head.outstanding.toNat

def opening (qs : List Placed) : Bytes := (qs.head?.map fun q => q.piece.data).getD []

theorem cuts_cons (q : Placed) (qs : List Placed) :
    cuts (q :: qs) = qs.map fun q => q.piece.head.outstanding.toNat := rfl

theorem cuts_subset_cons (q : Placed) (qs : List Placed) : cuts qs ⊆ cuts (q :: qs) :=
  List.map_subset _ (List.tail_sublist qs).subset

end Placed

/-- A piece of what is left of a record: before it `n` octets are outstanding, behind it `m`. -/
structure Outstanding.HasPiece (o : Outstanding) (session : Session) (qs : List Placed)
    (p : Piece) (n m : Nat) : Prop where
  fileIndex : p.head.fileIndex = o.fileIndex
  inSession : p.head.session = session
  outstanding : p.head.outstanding.toNat = n
  bound : n ≤ o.rest.length
  length : p.data.length = n - m
  data : p.data ++ o.rest.rtake m = o.rest.rtake n
  start : (p.head.tag = o.pieceTag ∧ n = o.rest.length ∧ p.data = Placed.opening qs) ∨
    (p.head.tag = o.tag.continuation ∧ n ∈ Placed.cuts qs)
  stop : m = 0 ∨ m ∈ Placed.cuts qs

namespace Outstanding
variable {session : Session} {o : Outstanding} {qs : List Placed}

theorem rtake_rest_after {k n : Nat} (hk : k ≤ o.rest.length) (hn : n ≤ (o.after k).rest.length) :
    (o.after k).rest.rtake n = o.rest.rtake n := by
  rw [o.length_rest_after] at hn
  rw [List.rtake, List.rtake, o.length_rest_after, after, List.drop_drop]
  congr 1
  omega

/-- The first piece tells how much is left. -/
theorem Cut.length_mem (hc : o.Cut session qs) (hl : o.rest.length < 2 ^ 32) :
    o.rest.length ∈ qs.map fun q => q.piece.head.outstanding.toNat := by
  cases hc <;> simp [o.toNat_outstanding_header session hl]

theorem HasPiece.of_after {k n m : Nat} {p : Piece} (q : Placed) (hk : k ≤ o.rest.length)
    (hcut : (o.after k).Cut session qs) (hl : (o.after k).rest.length < 2 ^ 32) (hm : m ≤ n)
    (h : (o.after k).HasPiece session qs p n m) : o.HasPiece session (q :: qs) p n m := by
  have hbound := h.bound
  rw [o.length_rest_after] at hbound
  refine ⟨h.fileIndex, h.inSession, h.outstanding, by omega, h.length, ?_, .inr ?_, ?_⟩
  · rw [← rtake_rest_after hk (hm.trans h.bound), ← rtake_rest_after hk h.bound]
    exact h.data
  · rcases h.start with ⟨htag, hn, -⟩ | ⟨htag, hn⟩
    · refine ⟨htag, ?_⟩
      rw [Placed.cuts_cons, hn]
      exact hcut.length_mem hl
    · exact ⟨htag, Placed.cuts_subset_cons q qs hn⟩
  · rcases h.stop with hstop | hstop
    · exact .inl hstop
    · exact .inr (Placed.cuts_subset_cons q qs hstop)

theorem Cut.hasPiece (hc : o.Cut session qs) (hl : o.rest.length < 2 ^ 32) {q : Placed}
    (hq : q ∈ qs) : ∃ n m, m ≤ n ∧ o.HasPiece session qs q.piece n m := by
  induction hc with
  | last o i =>
    rw [List.mem_singleton.mp hq]
    refine ⟨o.rest.length, 0, Nat.zero_le _, rfl, rfl, o.toNat_outstanding_header session hl,
      Nat.le_refl _, rfl, ?_, .inl ⟨rfl, rfl, rfl⟩, .inl rfl⟩
    simp [List.rtake]
  | @split o qs i k hk hcut ih =>
    have hless : (o.after k).rest.length < 2 ^ 32 := by
      rw [o.length_rest_after]
      omega
    rcases List.mem_cons.mp hq with rfl | hq
    · refine ⟨o.rest.length, (o.after k).rest.length, ?_, rfl, rfl,
        o.toNat_outstanding_header session hl, Nat.le_refl _, ?_, ?_, .inl ⟨rfl, rfl, rfl⟩,
        .inr (hcut.length_mem hless)⟩
      · rw [o.length_rest_after]
        exact Nat.sub_le _ _
      · rw [o.length_rest_after, List.length_take]
        omega
      · rw [← rtake_rest_after (Nat.le_of_lt hk) (Nat.le_refl _)]
        simp [List.rtake, after]
    · obtain ⟨n, m, hm, h⟩ := ih hless hq
      exact ⟨n, m, hm, h.of_after _ (Nat.le_of_lt hk) hcut hless hm⟩

end Outstanding

namespace Placement

def IsCutAt (fileIndex : Int32) (tag : StreamTag) (n : Nat) (p : Placement) : Prop :=
  p.record.fileIndex = fileIndex ∧ p.record.tag = tag ∧ n ∈ Placed.cuts p.pieces

/-- Two records with this file index and tag are cut with as many octets outstanding, and end
differently from there on. -/
def Mistakable (ps : List Placement) (fileIndex : Int32) (tag : StreamTag) : Prop :=
  ∃ p ∈ ps, ∃ q ∈ ps, ∃ n, p.IsCutAt fileIndex tag n ∧ q.IsCutAt fileIndex tag n ∧
    p.record.payload.rtake n ≠ q.record.payload.rtake n

end Placement

/-- A fragment that starts like the record of `p` and goes on with the end of that of `q`. -/
structure Fragment.IsWoven (session : Session) (ps : List Placement) (f : Fragment)
    (p q : Placement) : Prop where
  fileIndex : f.head.fileIndex = p.record.fileIndex
  tag : f.head.tag = p.record.tag
  inSession : f.head.session = session
  opening : Placed.opening p.pieces <+: f.collected.toList
  length : f.collected.size + f.missing = p.record.payload.length
  cut : q.IsCutAt f.head.fileIndex f.head.tag f.missing
  payload : f.collected.toList ++ q.record.payload.rtake f.missing = p.record.payload ∨
    Placement.Mistakable ps f.head.fileIndex f.head.tag

/-- A record that starts like that of `p` and is as long. -/
structure Record.IsWoven (session : Session) (ps : List Placement) (r : Record)
    (p : Placement) : Prop where
  fileIndex : r.fileIndex = p.record.fileIndex
  tag : r.tag = p.record.tag
  inSession : r.session = session
  opening : Placed.opening p.pieces <+: r.payload
  length : r.payload.length = p.record.payload.length
  payload : r.payload = p.record.payload ∨ Placement.Mistakable ps r.fileIndex r.tag

namespace Assembler
variable {session : Session} {ps : List Placement} {a : Assembler}

structure Weaves (session : Session) (ps : List Placement) (a : Assembler)
    (xs : List (Except RecordError Record)) : Prop where
  pending : ∀ f, a.pending = some f → ∃ p ∈ ps, ∃ q ∈ ps, f.IsWoven session ps p q
  records : ∀ r, .ok r ∈ xs → ∃ p ∈ ps, r.IsWoven session ps p

theorem weaves_discard (a : Assembler) : a.discard.Weaves session ps [] :=
  ⟨by rintro f ⟨⟩, by rintro r ⟨⟩⟩

/-- A piece of the record of `q` is added to a fragment that awaits it. -/
theorem weaves_grow {f : Fragment} {p q : Placement} (hp : p ∈ ps) (hq : q ∈ ps) {x : Piece}
    {m : Nat} (hfile : f.head.fileIndex = p.record.fileIndex) (htag : f.head.tag = p.record.tag)
    (hsession : f.head.session = session)
    (hopening : Placed.opening p.pieces <+: f.collected.toList ++ x.data)
    (hlength : f.collected.size + f.missing = p.record.payload.length) (hm : m ≤ f.missing)
    (hx : (Outstanding.whole q.record).HasPiece session q.pieces x f.missing m)
    (hsame : q.record.fileIndex = f.head.fileIndex ∧ q.record.tag = f.head.tag)
    (hpayload : f.collected.toList ++ q.record.payload.rtake f.missing = p.record.payload ∨
      Placement.Mistakable ps f.head.fileIndex f.head.tag) :
    (a.grow f x.data).1.Weaves session ps (a.grow f x.data).2 := by
  have hmissing : (f.extend x.data).missing = m := by
    change f.missing - x.data.length = m
    rw [hx.length]
    omega
  have hcollected : (f.extend x.data).collected.toList = f.collected.toList ++ x.data := by
    simp [Fragment.extend]
  have hsize : (f.extend x.data).collected.size = f.collected.size + (f.missing - m) := by
    rw [← Array.length_toList, hcollected, List.length_append, Array.length_toList, hx.length]
  have hgrown : (f.extend x.data).collected.toList ++ q.record.payload.rtake m = p.record.payload ∨
      Placement.Mistakable ps f.head.fileIndex f.head.tag := by
    rw [hcollected, List.append_assoc]
    have hdata : x.data ++ q.record.payload.rtake m = q.record.payload.rtake f.missing := hx.data
    rw [hdata]
    exact hpayload
  rw [grow]
  by_cases hdone : (f.extend x.data).missing = 0
  · simp only [if_pos hdone]
    rw [hmissing] at hdone
    subst hdone
    refine ⟨by rintro g ⟨⟩, ?_⟩
    intro r hr
    simp only [List.mem_singleton, Except.ok.injEq] at hr
    subst hr
    refine ⟨p, hp, hfile, htag, hsession, ?_, ?_, ?_⟩
    · rw [Fragment.toRecord, hcollected]
      exact hopening
    · rw [Fragment.toRecord, Array.length_toList, hsize]
      omega
    · rw [List.rtake_zero, List.append_nil] at hgrown
      exact hgrown
  · simp only [if_neg hdone]
    refine ⟨?_, by rintro r ⟨⟩⟩
    intro g hg
    cases hg
    rw [hmissing] at hdone
    refine ⟨p, hp, q, hq, hfile, htag, hsession, hcollected ▸ hopening, by omega, ?_, ?_⟩
    · exact ⟨hsame.1, hsame.2, hmissing ▸ hx.stop.resolve_left hdone⟩
    · rw [hmissing]
      exact hgrown

theorem Weaves.error {e : RecordError} {xs : List (Except RecordError Record)}
    (h : a.Weaves session ps xs) : a.Weaves session ps (.error e :: xs) :=
  ⟨h.pending, fun r hr => h.records r (by simpa using hr)⟩

/-- What comes out later does not depend on what came out before. -/
theorem Weaves.append {xs ys : List (Except RecordError Record)}
    (hx : ∀ r, .ok r ∈ xs → ∃ p ∈ ps, r.IsWoven session ps p) (hy : a.Weaves session ps ys) :
    a.Weaves session ps (xs ++ ys) := by
  refine ⟨hy.pending, fun r hr => ?_⟩
  rcases List.mem_append.mp hr with hr | hr
  · exact hx r hr
  · exact hy.records r hr

def IsPiece (session : Session) (ps : List Placement) (x : Piece) : Prop :=
  ∃ q ∈ ps, ∃ n m, m ≤ n ∧ (Outstanding.whole q.record).HasPiece session q.pieces x n m

theorem weaves_begin (hpos : ∀ p ∈ ps, 0 < p.record.tag.raw) (number : UInt32) {x : Piece}
    (hx : IsPiece session ps x) (ha : a.pending = none) :
    (a.begin number x).1.Weaves session ps (a.begin number x).2 := by
  obtain ⟨q, hq, n, m, hm, hpiece⟩ := hx
  rw [begin]
  by_cases hc : x.head.tag.isContinuation = true
  · simp only [if_pos hc]
    exact ⟨by simp [ha], by rintro r ⟨⟩⟩
  · simp only [if_neg hc]
    rcases hpiece.start with ⟨htag, hn, hopening⟩ | ⟨htag, -⟩
    · rw [hpiece.outstanding]
      refine weaves_grow hq hq (m := m) hpiece.fileIndex htag hpiece.inSession ?_ ?_ hm hpiece
        ⟨hpiece.fileIndex.symm, htag.symm⟩ (.inl ?_)
      · rw [hopening]
        exact List.prefix_rfl
      · rw [hn, Outstanding.whole]
        exact Nat.zero_add _
      · rw [hn]
        simp [List.rtake, Outstanding.whole]
    · rw [htag] at hc
      exact absurd (StreamTag.isContinuation_continuation (hpos q hq)) hc

/-- A piece that is taken for the continuation of the waiting record is that of a record which is cut
where the waiting one is. -/
theorem weaves_receive (hpos : ∀ p ∈ ps, 0 < p.record.tag.raw) (number : UInt32) {x : Piece}
    (hx : IsPiece session ps x) (ha : a.Weaves session ps []) :
    (a.receive number x).1.Weaves session ps (a.receive number x).2 := by
  rw [receive]
  rcases hf : a.pending with _ | f
  · exact weaves_begin hpos number hx hf
  · simp only
    by_cases hc : f.continuedBy x.head = true
    · simp only [if_pos hc]
      obtain ⟨p, hp, t, ht, hwoven⟩ := ha.pending f hf
      obtain ⟨q, hq, n, m, hm, hpiece⟩ := hx
      simp only [Fragment.continuedBy, Bool.and_eq_true, beq_iff_eq] at hc
      obtain ⟨⟨⟨hcontinues, hfile⟩, htag⟩, hmissing⟩ := hc
      rw [hpiece.outstanding] at hmissing
      subst hmissing
      rcases hpiece.start with ⟨hstart, -⟩ | ⟨hlater, hcut⟩
      · rw [hstart] at hcontinues
        have hfirst := StreamTag.isContinuation_of_pos (hpos q hq)
        exact absurd hcontinues (by simp [Outstanding.pieceTag, Outstanding.whole, hfirst])
      · have hsame : q.record.tag = f.head.tag := by
          refine StreamTag.eq_of_continuation_eq (hpos q hq) ?_ (hlater.symm.trans htag)
          rw [hwoven.tag]
          exact hpos p hp
        have hqfile : q.record.fileIndex = f.head.fileIndex := hpiece.fileIndex.symm.trans hfile
        refine weaves_grow hp hq (m := m) hwoven.fileIndex hwoven.tag hwoven.inSession
          (hwoven.opening.trans (List.prefix_append _ _)) hwoven.length hm hpiece
          ⟨hqfile, hsame⟩ ?_
        -- Both records are cut here. Where they end alike nothing is mixed up.
        rcases hwoven.payload with hpayload | hmistakable
        · by_cases hends : t.record.payload.rtake f.missing = q.record.payload.rtake f.missing
          · exact .inl (hends ▸ hpayload)
          · exact .inr ⟨t, ht, q, hq, f.missing, hwoven.cut, ⟨hqfile, hsame, hcut⟩, hends⟩
        · exact .inr hmistakable
    · simp only [if_neg hc]
      exact (weaves_begin hpos number hx (a := a.discard) rfl).error

theorem weaves_receiveAll (hpos : ∀ p ∈ ps, 0 < p.record.tag.raw) (number : UInt32)
    {xs : List Piece} (hx : ∀ x ∈ xs, IsPiece session ps x) (ha : a.Weaves session ps []) :
    (a.receiveAll number xs).1.Weaves session ps (a.receiveAll number xs).2 := by
  induction xs generalizing a with
  | nil => exact ha
  | cons x xs ih =>
    have hfirst := weaves_receive hpos number (hx x (by simp)) ha
    exact Weaves.append hfirst.records
      (ih (fun y hy => hx y (by simp [hy])) ⟨hfirst.pending, by rintro r ⟨⟩⟩)

end Assembler

/-- A block of a volume shows pieces that lie in it. -/
theorem ShowAll.exists_shows {key : Option VolumeKey} {n : Nat} {bs : List Bytes}
    {qs : List Placed} (h : ShowAll key n bs qs) {b : Bytes} (hb : b ∈ bs) :
    ∃ i xs, Shows key i b xs ∧ ∀ x ∈ xs, ∃ q ∈ qs, q.piece = x := by
  induction h with
  | nil n => cases hb
  | @block n c bs xs qs hc hq ih =>
    rcases List.mem_cons.mp hb with rfl | hb
    · exact ⟨n, xs, hc, fun x hx => ⟨⟨n, x⟩, by simp [hx], rfl⟩⟩
    · obtain ⟨i, ys, hshows, hys⟩ := ih hb
      refine ⟨i, ys, hshows, fun x hx => ?_⟩
      obtain ⟨q, hq, rfl⟩ := hys x hx
      exact ⟨q, List.mem_append_right _ hq, rfl⟩

namespace VolumeReader
variable {σ : Type} {r : VolumeReader σ} {key : Option VolumeKey} {session : Session}
  {ps : List Placement}

theorem key_receive (r : VolumeReader σ) (raw : RawBlock) : (r.receive raw).1.key = r.key := by
  rw [receive]
  split
  · rfl
  · exact key_dropPending _

theorem weaves_receive (hpos : ∀ p ∈ ps, 0 < p.record.tag.raw) {raw : RawBlock} {i : Nat}
    {xs : List Piece} (hraw : Shows key i raw.bytes xs)
    (hxs : ∀ x ∈ xs, Assembler.IsPiece session ps x) (hk : r.key = key ∨ r.key = none)
    (ha : r.assembler.Weaves session ps []) :
    (r.receive raw).1.assembler.Weaves session ps [] ∧
      ∀ x ∈ Finding.records (r.receive raw).2, ∃ p ∈ ps, x.IsWoven session ps p := by
  rcases hload : LoadedBlock.load r.verify r.key raw with e | b
  · simp only [receive, hload, assembler_dropPending]
    exact ⟨Assembler.weaves_discard _, by rintro x ⟨⟩⟩
  · have hall := hraw.unpackAll_eq rfl hk hload r.assembler
    have hweaves := Assembler.weaves_receiveAll hpos i.toUInt32 hxs ha
    simp only [receive, hload, hall]
    refine ⟨⟨hweaves.pending, by rintro x ⟨⟩⟩, fun x hx => hweaves.records x ?_⟩
    obtain ⟨f, hf, hx⟩ := List.mem_filterMap.mp hx
    obtain ⟨y, hy, rfl⟩ := List.mem_map.mp hf
    rcases y with e | y
    · cases hx
    · cases hx
      exact hy

theorem weaves_receiveAll (hpos : ∀ p ∈ ps, 0 < p.record.tag.raw) {raws : List RawBlock}
    (hraws : ∀ raw ∈ raws, ∃ i xs, Shows key i raw.bytes xs ∧
      ∀ x ∈ xs, Assembler.IsPiece session ps x)
    (hk : r.key = key ∨ r.key = none) (ha : r.assembler.Weaves session ps []) :
    ∀ x ∈ Finding.records (r.receiveAll raws).2, ∃ p ∈ ps, x.IsWoven session ps p := by
  induction raws generalizing r with
  | nil => rintro x ⟨⟩
  | cons raw raws ih =>
    obtain ⟨i, xs, hraw, hxs⟩ := hraws raw (by simp)
    obtain ⟨hfirst, hfound⟩ := weaves_receive hpos hraw hxs hk ha
    intro x hx
    rw [receiveAll, Finding.records_append] at hx
    rcases List.mem_append.mp hx with hx | hx
    · exact hfound x hx
    · exact ih (fun raw hmem => hraws raw (by simp [hmem])) (by rw [key_receive]; exact hk) hfirst x hx

end VolumeReader

/-- Whichever blocks of a volume are handed out, every record that is found starts like one that was
written and has its file index, its tag and its length. It is that record, unless two records with
this file index and tag are cut over blocks with as many octets outstanding and end differently. -/
theorem VolumeWriter.weaves_perform {κ σ : Type} [BlockSink κ] [BlockSource σ] {sink : κ}
    (hs : BlockSink.AcceptsAll sink) (blockSize : Nat) (hb : blockSize ≤ maxBlockLength)
    (session : Session) (checksums : Bool) (key : Option VolumeKey) (nonce : Nonce)
    (steps : List WriterStep)
    (hr : ∀ r ∈ WriterStep.records steps, 0 < r.tag.raw ∧ r.payload.length < 2 ^ 32) :
    ∃ w blocks ps,
      (create sink blockSize session checksums key nonce).perform (steps ++ [.flush])
        = (w, .ok ()) ∧
      w.sink = (BlockSink.writeAll sink blocks).1 ∧
      (create sink blockSize session checksums key nonce).placements steps = ps ∧
      ps.map Placement.record = WriterStep.records steps ∧
      ∀ (readerKey : Option VolumeKey) (verify : Bool) (source left : σ) (raws : List RawBlock),
        (readerKey = key ∨ readerKey = none) → BlockSource.Yields source raws left →
        raws.map RawBlock.bytes ⊆ blocks →
        ∀ x ∈ Finding.records ({ source, verify, key := readerKey } : VolumeReader σ).readAll.1,
          ∃ p ∈ ps, x.IsWoven session ps p := by
  obtain ⟨w, blocks, hw, hsink, hshown, hsound⟩ :=
    perform_create hs hb session checksums key nonce hr
  refine ⟨w, blocks, _, hw, hsink, rfl, map_record_placements _ _, ?_⟩
  intro readerKey verify source left raws hk hy hraws
  rw [VolumeReader.readAll_yields rfl hy]
  refine VolumeReader.weaves_receiveAll (fun p hp => (hsound p hp).tag) (fun raw hmem => ?_) hk
    ⟨by rintro f ⟨⟩, by rintro x ⟨⟩⟩
  obtain ⟨i, xs, hraw, hxs⟩ := hshown.exists_shows (hraws (List.mem_map_of_mem hmem))
  refine ⟨i, xs, hraw, fun x hx => ?_⟩
  obtain ⟨q, hq, rfl⟩ := hxs x hx
  obtain ⟨p, hp, hq⟩ := List.mem_flatMap.mp hq
  obtain ⟨n, m, hm, hpiece⟩ := (hsound p hp).cut.hasPiece (hsound p hp).length hq
  exact ⟨p, hp, n, m, hm, hpiece⟩

def twin (x y : UInt8) : Record := ⟨1, ⟨2⟩, [x, y], {}, 0⟩

def octetWriter : VolumeWriter MemoryVolume :=
  .create { name := "volume" } 45 ⟨1, 1⟩ true none ⟨0⟩

namespace VolumeWriter

theorem weaves_perform_memory :
    BlockSink.AcceptsAll ({ name := "volume" } : MemoryVolume) ∧ 45 ≤ maxBlockLength ∧
    (∀ r ∈ [twin 1 2, twin 3 4], 0 < r.tag.raw ∧ r.payload.length < 2 ^ 32) ∧
    ∃ w blocks, octetWriter.perform [.record (twin 1 2), .record (twin 3 4), .flush] = (w, .ok ()) ∧
      w.sink.blocks.toList = blocks ∧
      ∀ kept, kept ⊆ blocks → ∀ x ∈ Finding.records ({ source := MemoryVolume.ofBlocks "volume" kept } :
        VolumeReader MemoryVolume).readAll.1, x.fileIndex = 1 ∧ x.payload.length = 2 := by
  have hs : BlockSink.AcceptsAll ({ name := "volume" } : MemoryVolume) :=
    MemoryVolume.acceptsAll rfl
  have hr : ∀ r ∈ [twin 1 2, twin 3 4], 0 < r.tag.raw ∧ r.payload.length < 2 ^ 32 := by decide
  refine ⟨hs, by decide, hr, ?_⟩
  obtain ⟨w, blocks, ps, hw, hsink, -, hrecords, hread⟩ := weaves_perform (σ := MemoryVolume) hs
    45 (by decide) ⟨1, 1⟩ true none ⟨0⟩ [.record (twin 1 2), .record (twin 3 4)] hr
  refine ⟨w, blocks, hw, ?_, fun kept hkept x hx => ?_⟩
  · rw [hsink, MemoryVolume.writeAll_eq rfl]
    simp
  · obtain ⟨p, hp, hwoven⟩ := hread none true _ _ _ (.inl rfl)
      (MemoryVolume.yields_ofBlocks "volume" kept)
      (by rw [MemoryVolume.map_bytes_rawBlocks]; exact hkept) x hx
    have hmem : p.record ∈ [twin 1 2, twin 3 4] := by
      have hmem := List.mem_map_of_mem (f := Placement.record) hp
      rw [hrecords] at hmem
      exact hmem
    rw [hwoven.fileIndex, hwoven.length]
    revert hmem
    generalize p.record = r
    revert r
    decide

/-- Of two records that are cut alike, the start of the first one and the end of the second one
make up a record that nobody has written. -/
theorem weaves_twins :
    ∃ w a b c d, octetWriter.perform [.record (twin 1 2), .record (twin 3 4), .flush]
        = (w, .ok ()) ∧
      w.sink.blocks.toList = [a, b, c, d] ∧ [a, d].Sublist [a, b, c, d] ∧
      ({ source := MemoryVolume.ofBlocks "volume" [a, d] } : VolumeReader MemoryVolume).readAll.1
        = [.record ⟨1, ⟨2⟩, [1, 4], ⟨1, 1⟩, 0⟩] ∧
      ∀ r ∈ [twin 1 2, twin 3 4], r.payload ≠ [1, 4] := by
  have hs : BlockSink.AcceptsAll ({ name := "volume" } : MemoryVolume) :=
    MemoryVolume.acceptsAll rfl
  have hfirst : octetWriter.placed (.whole (twin 1 2))
      = [⟨0, ⟨1, ⟨2⟩, 2, ⟨1, 1⟩⟩, [1]⟩, ⟨1, ⟨1, ⟨-2⟩, 1, ⟨1, 1⟩⟩, [2]⟩] := by
    rw [placed_split rfl rfl rfl, placed_last rfl rfl]
    rfl
  have hsecond : (octetWriter.writeRecord (twin 1 2)).1.placed (.whole (twin 3 4))
      = [⟨2, ⟨1, ⟨2⟩, 2, ⟨1, 1⟩⟩, [3]⟩, ⟨3, ⟨1, ⟨-2⟩, 1, ⟨1, 1⟩⟩, [4]⟩] := by
    rw [writeRecord, store_partly (x := .ok ()) rfl rfl rfl]
    simp only
    rw [store_complete rfl rfl]
    simp only
    rw [placed_behind rfl rfl rfl, placed_split rfl rfl rfl, placed_last rfl rfl]
    rfl
  have hb : 45 ≤ maxBlockLength := by decide
  have hr : ∀ r ∈ WriterStep.records [.record (twin 1 2), .record (twin 3 4)],
      0 < r.tag.raw ∧ r.payload.length < 2 ^ 32 := by decide
  obtain ⟨w, blocks, hw, hsink, hshown, -⟩ := perform_create hs hb ⟨1, 1⟩ true none ⟨0⟩ hr
  change ShowAll none 0 blocks (octetWriter.placed (.whole (twin 1 2))
    ++ ((octetWriter.writeRecord (twin 1 2)).1.placed (.whole (twin 3 4)) ++ [])) at hshown
  rw [hfirst, hsecond] at hshown
  obtain ⟨a, bs, rfl, ha, hshown⟩ := hshown.alone (by simp)
  obtain ⟨b, cs, rfl, -, hshown⟩ := hshown.alone (by simp)
  obtain ⟨c, ds, rfl, -, hshown⟩ := hshown.alone (by simp)
  obtain ⟨d, es, rfl, hd, hshown⟩ := hshown.alone (by simp)
  obtain rfl : es = [] := hshown.eq_nil
  refine ⟨w, a, b, c, d, hw, ?_, by simp, ?_, by decide⟩
  · rw [hsink, MemoryVolume.writeAll_eq rfl]
    simp
  · obtain ⟨x, hx, -⟩ := ha.load true 0
    obtain ⟨y, hy, -⟩ := hd.load true 1
    rw [VolumeReader.readAll_yields rfl (MemoryVolume.yields_ofBlocks "volume" [a, d])]
    simp only [MemoryVolume.rawBlocks, VolumeReader.receiveAll]
    have hstart : (({} : Assembler).receiveAll (Nat.toUInt32 0)
        [⟨⟨1, ⟨2⟩, 2, ⟨1, 1⟩⟩, [1]⟩]).2 = ([] : List Record).map .ok := rfl
    have hend : (({ pending := some ⟨⟨1, ⟨2⟩, 2, ⟨1, 1⟩⟩, 0, #[1], 1⟩ } : Assembler).receiveAll
        (Nat.toUInt32 3) [⟨⟨1, ⟨-2⟩, 1, ⟨1, 1⟩⟩, [4]⟩]).2
          = [(⟨1, ⟨2⟩, [1, 4], ⟨1, 1⟩, 0⟩ : Record)].map .ok := rfl
    rw [VolumeReader.receive_shows ha rfl (.inl rfl) hx hstart]
    simp only
    rw [VolumeReader.receive_shows hd rfl (.inl rfl) hy hend]
    rfl

end VolumeWriter
end BackupVolume
