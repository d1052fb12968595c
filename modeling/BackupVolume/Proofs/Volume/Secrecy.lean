import BackupVolume.Proofs.Block.Reading
import BackupVolume.Proofs.Volume.Handing
import BackupVolume.Proofs.Volume.Invariance

/-! # What is found without the key

Blocks that hold a piece of a positive file index are sealed. Who reads what a writer with a key has
handed over, in any order and without the key, finds no record with a positive file index.
-/
namespace BackupVolume

namespace LoadedBlock

def firstHeader (b : LoadedBlock) : PieceHeader :=
  .ofBytes b.layout b.session (b.rest.take b.layout.recordHeaderLength)

/-- Every header that is met in the rest of the block, one behind the octets of another, has a
file index of this kind. -/
inductive ShowsOnly (kind : Int32 → Prop) : LoadedBlock → Prop
  | short {b : LoadedBlock} : b.rest.length < b.layout.recordHeaderLength → ShowsOnly kind b
  | header {b : LoadedBlock} : kind b.firstHeader.fileIndex →
    ShowsOnly kind (b.drop (b.layout.recordHeaderLength + b.firstHeader.outstanding.toNat)) →
      ShowsOnly kind b

variable {kind : Int32 → Prop} {b : LoadedBlock}

theorem ShowsOnly.exhausted (b : LoadedBlock) : ShowsOnly kind b.exhausted :=
  .short b.layout.recordHeaderLength_pos

theorem ShowsOnly.of_long (h : ShowsOnly kind b)
    (long : ¬(b.rest.take b.layout.recordHeaderLength).length < b.layout.recordHeaderLength) :
    kind b.firstHeader.fileIndex ∧
      ShowsOnly kind (b.drop (b.layout.recordHeaderLength + b.firstHeader.outstanding.toNat)) := by
  cases h with
  | short hshort =>
    rw [List.length_take] at long
    omega
  | header hkind hrest => exact ⟨hkind, hrest⟩

theorem firstHeader_of_piece {p : Piece} {rest : Bytes} {n : Nat} (hl : b.layout = .bb03)
    (hb : b.rest = (p.toBytes .bb03 ++ rest).take n)
    (long : ¬b.rest.length < b.layout.recordHeaderLength) :
    b.firstHeader = { p.head with session := b.session } := by
  have hlen : ({ p.head with session := b.session }.toBytes .bb03).length
      = HeaderLayout.bb03.recordHeaderLength := PieceHeader.length_toBytes ..
  have hn : HeaderLayout.bb03.recordHeaderLength ≤ n := by
    rw [hb, hl, List.length_take] at long
    omega
  have hfirst : b.rest.take HeaderLayout.bb03.recordHeaderLength
      = { p.head with session := b.session }.toBytes .bb03 := by
    rw [hb, List.take_take, Nat.min_eq_left hn, Piece.toBytes, List.append_assoc]
    exact List.take_left' hlen
  rw [firstHeader, hl, hfirst]
  exact PieceHeader.ofBytes_toBytes (.inr rfl)

/-- The first octets of pieces show only the headers of the pieces. -/
theorem showsOnly_pieces {ps : List Piece} {n : Nat} (hl : b.layout = .bb03)
    (hb : b.rest = (ps.flatMap (Piece.toBytes .bb03)).take n)
    (hkind : ∀ p ∈ ps, kind p.head.fileIndex)
    (hwithin : ∀ p ∈ ps, p.data.length ≤ p.head.outstanding.toNat)
    (hlast : ∀ p ∈ ps.dropLast, p.IsLast) : ShowsOnly kind b := by
  induction ps generalizing b n with
  | nil =>
    have hpos := b.layout.recordHeaderLength_pos
    exact .short (by rw [hb]; simpa using hpos)
  | cons p ps ih =>
    rw [List.flatMap_cons] at hb
    by_cases hshort : b.rest.length < b.layout.recordHeaderLength
    · exact .short hshort
    · have hfirst := firstHeader_of_piece hl hb hshort
      have hlen := p.length_toBytes .bb03
      have hbehind : (p.toBytes .bb03 ++ ps.flatMap (Piece.toBytes .bb03)).drop
          (HeaderLayout.bb03.recordHeaderLength + p.head.outstanding.toNat)
            = ps.flatMap (Piece.toBytes .bb03) := by
        -- Only the last piece may hold less than its header announces.
        cases ps with
        | nil =>
          have hp := hwithin p (by simp)
          rw [List.flatMap_nil, List.append_nil]
          exact List.drop_of_length_le (by omega)
        | cons q qs =>
          have hp : p.data.length = p.head.outstanding.toNat := hlast p (by simp)
          exact List.drop_left' (by omega)
      have hrest : (b.drop (b.layout.recordHeaderLength + b.firstHeader.outstanding.toNat)).rest
          = (ps.flatMap (Piece.toBytes .bb03)).take
            (n - (HeaderLayout.bb03.recordHeaderLength + p.head.outstanding.toNat)) := by
        rw [hfirst, hl, LoadedBlock.drop, hb, List.drop_take, hbehind]
      refine .header (hfirst ▸ hkind p (by simp)) (ih hl hrest ?_ ?_ ?_)
      · exact fun q hq => hkind q (by simp [hq])
      · exact fun q hq => hwithin q (by simp [hq])
      · intro q hq
        apply hlast q
        cases ps with
        | nil => simp at hq
        | cons r rs => exact List.mem_cons_of_mem _ hq

end LoadedBlock

namespace Assembler
variable {kind : Int32 → Prop}

def AwaitsOnly (kind : Int32 → Prop) (a : Assembler) : Prop :=
  ∀ f, a.pending = some f → kind f.head.fileIndex

theorem awaitsOnly_settle {a c : Assembler} {f : Fragment} {b d : LoadedBlock} {u : Unpacked}
    (hf : kind f.head.fileIndex) (hs : a.settle f b = (c, d, u)) :
    c.AwaitsOnly kind ∧ d = b.drop f.missing ∧ ∀ r, u = .record r → kind r.fileIndex := by
  rw [settle] at hs
  split at hs
  · cases hs
    refine ⟨by rintro g ⟨⟩, rfl, ?_⟩
    rintro r ⟨rfl⟩
    exact hf
  · cases hs
    refine ⟨?_, rfl, by rintro r ⟨⟩⟩
    rintro g ⟨rfl⟩
    exact hf

theorem awaitsOnly_unpack {a c : Assembler} {b d : LoadedBlock} {x : Except RecordError Unpacked}
    (ha : a.AwaitsOnly kind) (hb : b.ShowsOnly kind) (hu : a.unpack b = (c, d, x)) :
    c.AwaitsOnly kind ∧ d.ShowsOnly kind ∧ ∀ r, x = .ok (.record r) → kind r.fileIndex := by
  fun_induction unpack a b with
  | case1 a b n raw short =>
    cases hu
    exact ⟨ha, .exhausted b, by rintro r ⟨⟩⟩
  | case2 a b n raw short head f waits continued a' b' u settled =>
    cases hu
    obtain ⟨-, hrest⟩ := hb.of_long short
    obtain ⟨hawaits, hd, hrecord⟩ := awaitsOnly_settle (ha f waits) settled
    have hmissing : head.outstanding.toNat = f.missing := by
      simp only [Fragment.continuedBy, Bool.and_eq_true, beq_iff_eq] at continued
      exact continued.2
    refine ⟨hawaits, ?_, by rintro r ⟨rfl⟩; exact hrecord r rfl⟩
    rw [hd, LoadedBlock.drop_drop, ← hmissing]
    exact hrest
  | case3 a b n raw short head f waits broken =>
    cases hu
    exact ⟨by rintro f ⟨⟩, hb, by rintro r ⟨⟩⟩
  | case4 a b n raw short head none continuation ih =>
    obtain ⟨-, hrest⟩ := hb.of_long short
    exact ih ha hrest hu
  | case5 a b n raw short head none first a' b' u settled =>
    cases hu
    obtain ⟨hkind, hrest⟩ := hb.of_long short
    obtain ⟨hawaits, hd, hrecord⟩ := awaitsOnly_settle hkind settled
    refine ⟨hawaits, ?_, by rintro r ⟨rfl⟩; exact hrecord r rfl⟩
    rw [hd, LoadedBlock.drop_drop]
    exact hrest

end Assembler

namespace BlockSource
variable {σ : Type} [BlockSource σ]

/-- The source hands out this block at some time, if it is read again and again. -/
inductive Offers : σ → RawBlock → Prop
  | now {s t : σ} {raw : RawBlock} : read s = (t, .ok (some raw)) → Offers s raw
  | later {s t : σ} {raw : RawBlock} {x : Except IoFault (Option RawBlock)} :
    read s = (t, x) → Offers t raw → Offers s raw

end BlockSource

theorem Piece.IsOf.length_data_le {session : Session} {p : Piece} {r : Record}
    (hp : p.IsOf session r) (hr : r.payload.length < 2 ^ 32) :
    p.data.length ≤ p.head.outstanding.toNat := by
  obtain ⟨o, n, ho, rfl⟩ := hp
  have hrest := ho.rest.length_le
  rw [o.toNat_outstanding_header session (by omega), List.length_take]
  exact Nat.min_le_right ..

theorem Piece.IsOf.fileIndex {session : Session} {p : Piece} {r : Record}
    (hp : p.IsOf session r) : p.head.fileIndex = r.fileIndex := by
  obtain ⟨o, n, ho, rfl⟩ := hp
  exact ho.fileIndex

theorem Piece.Ends.isLast {p : Piece} (hp : p.Ends) (hl : p.data.length < 2 ^ 32) : p.IsLast := by
  rw [IsLast, hp, Nat.toUInt32, UInt32.toNat_ofNat', Nat.mod_eq_of_lt hl]

/-- What is loaded of a written block, apart from opening it. -/
theorem LoadedBlock.of_decode_encode {verify : Bool} {address : Nat} {h : BlockHeader}
    {payload : Bytes} {b : LoadedBlock} (hl : h.layout = .bb03)
    (ho : BlockOptions.ofBits? h.options.bits = some h.options)
    (hd : LoadedBlock.decode verify address (h.encode payload).2 = .ok b) :
    b.layout = .bb03 ∧ b.header.options = h.options ∧ ∃ n, b.rest = payload.take n := by
  rcases hread : BlockHeader.decode verify (h.encode payload).2 with e | ⟨g, rest⟩
  · simp [decode, hread, bind, Except.bind] at hd
  · simp only [decode, hread, bind, Except.bind, pure, Except.pure, Except.ok.injEq] at hd
    subst hd
    obtain ⟨rfl, hrest⟩ := BlockHeader.eq_of_decode_encode (.inr ho) hread
    refine ⟨(BlockHeader.layout_complete h payload).trans hl, ?_, hrest⟩
    rw [BlockHeader.encode, BlockHeader.options_complete, hl]
    rfl

section Reader
variable {k : VolumeKey} {base : BlockOptions} {session : Session} {rs : List Record}

/-- Without the key a block is refused, or it shows only pieces that have no positive file index. -/
theorem Protected.showsOnly_load {bytes : Bytes} {ps : List Piece}
    (h : Protected k base session rs bytes ps) (hbase : base = .none ∨ base = .checksum)
    (hr : ∀ r ∈ rs, r.fileIndex ≤ 0 → r.payload.length < 2 ^ 32) {verify : Bool} {address : Nat}
    {b : LoadedBlock} (hb : LoadedBlock.load verify none ⟨address, bytes⟩ = .ok b) :
    b.ShowsOnly (· ≤ 0) := by
  rw [LoadedBlock.load] at hb
  rcases hd : LoadedBlock.decode verify address bytes with e | c
  · simp [hd] at hb
  simp only [hd] at hb
  cases h.block with
  | sealed holds layout inSession options nonce =>
    have hknown : ∀ o, o = (base.union .volumeSealed).union .blockSealed →
        BlockOptions.ofBits? o.bits = some o ∧ o.contains .blockSealed = true := by
      rintro o rfl
      rcases hbase with rfl | rfl <;> decide
    obtain ⟨hbits, hsealed⟩ := hknown _ options
    obtain ⟨-, hoptions, -⟩ := LoadedBlock.of_decode_encode layout hbits hd
    simp [hoptions, hsealed] at hb
  | clear labels layout inSession options =>
    have hknown : ∀ o, o = base.union .volumeSealed →
        BlockOptions.ofBits? o.bits = some o ∧ o.contains .blockSealed = false := by
      rintro o rfl
      rcases hbase with rfl | rfl <;> decide
    obtain ⟨hbits, hclear⟩ := hknown _ options
    obtain ⟨hlayout, hoptions, n, hrest⟩ := LoadedBlock.of_decode_encode layout hbits hd
    simp only [hoptions, hclear, Bool.false_eq_true, if_false, Except.ok.injEq] at hb
    subst hb
    have hwithin : ∀ p ∈ ps, p.data.length ≤ p.head.outstanding.toNat := by
      intro p hp
      obtain ⟨r, hmem, hof⟩ := h.pieces p hp
      exact hof.length_data_le (hr r hmem (hof.fileIndex ▸ labels p hp))
    refine LoadedBlock.showsOnly_pieces hlayout hrest labels hwithin ?_
    intro p hp
    have hlen := hwithin p (List.dropLast_subset ps hp)
    exact (h.ends p hp).isLast (Nat.lt_of_le_of_lt hlen (UInt32.toNat_lt _))

theorem VolumeReader.readAll_protected {σ : Type} [BlockSource σ] {source : σ}
    (hs : ∀ raw, BlockSource.Offers source raw → ∃ ps, Protected k base session rs raw.bytes ps)
    (hbase : base = .none ∨ base = .checksum)
    (hr : ∀ r ∈ rs, r.fileIndex ≤ 0 → r.payload.length < 2 ^ 32) {verify : Bool}
    {fs : List Finding} {v : VolumeReader σ} {e : Ending Empty}
    (hread : ({ source, verify } : VolumeReader σ).readAll = (fs, v, e)) :
    ∀ r ∈ Finding.records fs, r.fileIndex ≤ 0 := by
  have keeps : Keeps verify none
      (fun s : σ => ∀ raw, BlockSource.Offers s raw →
        ∃ ps, Protected k base session rs raw.bytes ps)
      (Assembler.AwaitsOnly (· ≤ 0)) (LoadedBlock.ShowsOnly (· ≤ 0))
      (fun r => r.fileIndex ≤ 0) := by
    refine ⟨fun _ => by rintro f ⟨⟩, Assembler.awaitsOnly_unpack, ?_, ?_⟩
    · intro s t x hs read raw hraw
      exact hs raw (.later read hraw)
    · intro s t raw b hs read loaded
      obtain ⟨ps, hps⟩ := hs raw (.now read)
      exact hps.showsOnly_load hbase hr loaded
  exact keeps.readAll ⟨rfl, rfl, hs, by rintro f ⟨⟩, by rintro b ⟨⟩⟩ hread

end Reader

/-- Whatever becomes of its blocks, a writer with a key hands over only blocks of pieces of its
records, sealed where a piece has a positive file index and in clear where none has. Who reads such
blocks without the key finds no record with a positive file index. -/
theorem VolumeWriter.protects_proceedAll {κ : Type} [BlockSink κ] (sink : κ) (blockSize : Nat)
    (session : Session) (checksums : Bool) (k : VolumeKey) (nonce : Nonce)
    (steps : List WriterStep) :
    let w := (create (⟨sink, []⟩ : Recorder κ) blockSize session checksums (some k) nonce).proceedAll
      steps
    w.unrecorded = (create sink blockSize session checksums (some k) nonce).proceedAll steps ∧
    (∀ bytes ∈ w.sink.handed, ∃ ps, ps ≠ [] ∧
      (∀ p ∈ ps, ∃ r ∈ WriterStep.records steps, p.IsOf session r) ∧
      Protects k (if checksums then .checksum else .none) session ps bytes) ∧
    ((∀ r ∈ WriterStep.records steps, r.fileIndex ≤ 0 → r.payload.length < 2 ^ 32) →
      ∀ (σ : Type) [BlockSource σ] (source : σ) (verify : Bool) (fs : List Finding)
        (v : VolumeReader σ) (e : Ending Empty),
        (∀ raw, BlockSource.Offers source raw → raw.bytes ∈ w.sink.handed) →
        ({ source, verify } : VolumeReader σ).readAll = (fs, v, e) →
        ∀ r ∈ Finding.records fs, r.fileIndex ≤ 0) := by
  intro w
  have hbase : (if checksums then BlockOptions.checksum else .none) = .none ∨
      (if checksums then BlockOptions.checksum else .none) = .checksum := by
    cases checksums
    · exact .inl rfl
    · exact .inr rfl
  have hnew := fills_create sink blockSize session checksums k nonce (WriterStep.records steps)
  obtain ⟨ps, hfills⟩ : ∃ ps, Fills k (if checksums then .checksum else .none) session
      (WriterStep.records steps) w ps := Fills.proceedAll ⟨[], hnew⟩ fun _ hr => hr
  refine ⟨(unrecorded_proceedAll _ steps).symm, ?_, ?_⟩
  · intro bytes hb
    obtain ⟨qs, hqs⟩ := hfills.handed bytes hb
    exact ⟨qs, hqs.filled, hqs.pieces, hqs.block⟩
  · intro hr σ _ source verify fs v e hs hread
    exact VolumeReader.readAll_protected (fun raw hraw => hfills.handed _ (hs raw hraw)) hbase hr
      hread

theorem MemoryVolume.mem_of_offers {v : MemoryVolume} {raw : RawBlock}
    (h : BlockSource.Offers v raw) : raw.bytes ∈ v.blocks := by
  induction h with
  | now read =>
    simp only [BlockSource.read, MemoryVolume.read] at read
    split at read
    · next found =>
      cases read
      exact Array.mem_of_getElem? found
    · cases read
  | later read _ ih =>
    simp only [BlockSource.read, MemoryVolume.read] at read
    split at read <;> cases read <;> exact ih

/-- A file and a label, flushed apart: without the key the label is all that can be found. -/
theorem VolumeWriter.protects_proceedAll_memory :
    let key : VolumeKey := ⟨List.replicate 32 1, rfl⟩
    let steps : List WriterStep :=
      [.record ⟨1, ⟨2⟩, [1, 2, 3], {}, 0⟩, .flush, .record ⟨-1, ⟨1⟩, [4], {}, 0⟩, .flush]
    let w := (create (⟨{ name := "volume" }, []⟩ : Recorder MemoryVolume) 80 ⟨7, 9⟩ true (some key)
      ⟨0⟩).proceedAll steps
    (∀ r ∈ WriterStep.records steps, r.fileIndex ≤ 0 → r.payload.length < 2 ^ 32) ∧
    ∀ r ∈ Finding.records ({ source := MemoryVolume.ofBlocks "volume" w.sink.handed } :
      VolumeReader MemoryVolume).readAll.1, r.fileIndex ≤ 0 := by
  intro key steps w
  have hr : ∀ r ∈ WriterStep.records steps, r.fileIndex ≤ 0 → r.payload.length < 2 ^ 32 := by decide
  refine ⟨hr, ?_⟩
  have hread := (protects_proceedAll ({ name := "volume" } : MemoryVolume) 80 ⟨7, 9⟩ true key ⟨0⟩
    steps).2.2 hr MemoryVolume (MemoryVolume.ofBlocks "volume" w.sink.handed) true
  refine hread _ _ _ (fun raw hraw => ?_) rfl
  simpa [MemoryVolume.ofBlocks] using MemoryVolume.mem_of_offers hraw

/-- A record with file index zero is no label, and yet it lies in clear. -/
theorem VolumeWriter.protects_index_zero :
    let r : Record := ⟨0, ⟨2⟩, [1, 2, 3], {}, 0⟩
    let w := (create (⟨{ name := "volume" }, []⟩ : Recorder MemoryVolume) 80 ⟨7, 9⟩ false
      (some ⟨List.replicate 32 1, rfl⟩) ⟨0⟩).proceedAll [.record r, .flush]
    r.isLabel = false ∧ ∃ bytes ∈ w.sink.handed, ∃ h,
      BlockHeader.decode true bytes = .ok (h,
        (Piece.mk ((Outstanding.whole r).header ⟨7, 9⟩) r.payload).toBytes .bb03) ∧
      h.options = .volumeSealed := by
  intro r w
  let h : BlockHeader := ⟨.bb03, .volumeSealed, 0, 0, ⟨7, 9⟩, 0⟩
  let area : Bytes := (Piece.mk ((Outstanding.whole r).header ⟨7, 9⟩) r.payload).toBytes .bb03
  have hstored := store_complete (o := .whole r) (w := create (⟨{ name := "volume" }, []⟩ :
    Recorder MemoryVolume) 80 ⟨7, 9⟩ false (some ⟨List.replicate 32 1, rfl⟩) ⟨0⟩) rfl rfl
  have hhanded : w.sink.handed = [(h.encode area).2] := by
    simp only [w, proceedAll, List.foldl_cons, List.foldl_nil, proceed, writeRecord, hstored]
    decide +kernel
  have hread : BlockHeader.decode true ((h.encode area).2 ++ []) = .ok ((h.encode area).1, area) :=
    BlockHeader.decode_encode true [] (.inr (by decide)) (by decide +kernel)
  rw [List.append_nil] at hread
  exact ⟨rfl, (h.encode area).2, by rw [hhanded]; exact List.mem_singleton.mpr rfl,
    (h.encode area).1, hread, BlockHeader.options_complete h area⟩

end BackupVolume
