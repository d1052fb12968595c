import BackupVolume.Proofs.Record.Pieces

/-! # Records that are cut into pieces

A record that does not fit is cut, and its pieces lie in one block after another. Who reads all of
these blocks has the record again; who misses one of them passes over the other pieces without a
failure, and is ready for the next record.
-/
namespace BackupVolume

theorem StreamTag.isContinuation_of_pos {t : StreamTag} (ht : 0 < t.raw) :
    t.isContinuation = false := by
  rw [isContinuation, decide_eq_false_iff_not, Int32.not_lt]
  exact Int32.le_of_lt ht

theorem StreamTag.abs_raw_of_pos {t : StreamTag} (ht : 0 < t.raw) : t.raw.abs = t.raw := by
  have hpos := Int32.lt_iff_toInt_lt.mp ht
  rw [Int32.toInt_zero] at hpos
  have hmsb : t.raw.toBitVec.msb = false := by
    rw [BitVec.msb_eq_toInt, Int32.toInt_toBitVec, decide_eq_false_iff_not]
    omega
  apply Int32.toBitVec_inj.mp
  change t.raw.toBitVec.abs = _
  rw [BitVec.abs_eq, if_neg (by simp [hmsb])]

theorem StreamTag.isContinuation_continuation {t : StreamTag} (ht : 0 < t.raw) :
    t.continuation.isContinuation = true := by
  have hpos := Int32.lt_iff_toInt_lt.mp ht
  rw [Int32.toInt_zero] at hpos
  have hlt := Int32.toInt_lt t.raw
  rw [isContinuation, continuation, decide_eq_true_eq, abs_raw_of_pos ht, Int32.lt_iff_toInt_lt,
    Int32.toInt_neg, Int32.toInt_zero, Int.bmod_eq_of_le] <;> omega

/-- The tag of the later pieces tells that of the first one. -/
theorem StreamTag.eq_of_continuation_eq {s t : StreamTag} (hs : 0 < s.raw) (ht : 0 < t.raw)
    (h : s.continuation = t.continuation) : s = t := by
  rw [continuation, continuation, abs_raw_of_pos hs, abs_raw_of_pos ht, mk.injEq] at h
  obtain ⟨s⟩ := s
  obtain ⟨t⟩ := t
  exact congrArg mk (Int32.neg_inj.mp h)

structure Placed where
  block : Nat
  piece : Piece

namespace Outstanding

def after (o : Outstanding) (k : Nat) : Outstanding :=
  { o with started := true, rest := o.rest.drop k }

/-- The pieces into which what is left of a record is cut, for blocks of a session. Every piece but
the last one leaves something for those that follow. -/
inductive Cut (session : Session) : Outstanding → List Placed → Prop
  | last (o : Outstanding) (n : Nat) : Cut session o [⟨n, o.header session, o.rest⟩]
  | split {o : Outstanding} {qs : List Placed} (n : Nat) {k : Nat} :
    k < o.rest.length → Cut session (o.after k) qs →
      Cut session o (⟨n, o.header session, o.rest.take k⟩ :: qs)

theorem length_rest_after (o : Outstanding) (k : Nat) :
    (o.after k).rest.length = o.rest.length - k := List.length_drop

theorem toNat_outstanding_header (o : Outstanding) (session : Session)
    (hl : o.rest.length < 2 ^ 32) : (o.header session).outstanding.toNat = o.rest.length := by
  rw [header, Nat.toUInt32, UInt32.toNat_ofNat']
  exact Nat.mod_eq_of_lt hl

end Outstanding

structure Fragment.Awaits (f : Fragment) (o : Outstanding) : Prop where
  started : o.started = true
  fileIndex : f.head.fileIndex = o.fileIndex
  tag : f.head.tag = o.tag
  missing : f.missing = o.rest.length

namespace Fragment

theorem continuedBy_header {f : Fragment} {o : Outstanding} (h : f.Awaits o) (session : Session)
    (ht : 0 < o.tag.raw) (hl : o.rest.length < 2 ^ 32) : f.continuedBy (o.header session) = true := by
  have hlen := o.toNat_outstanding_header session hl
  rw [continuedBy, hlen, h.missing, h.fileIndex, h.tag]
  simp [Outstanding.header, Outstanding.pieceTag, h.started,
    StreamTag.isContinuation_continuation ht]

theorem extend_extend (f : Fragment) (xs ys : Bytes) :
    (f.extend xs).extend ys = f.extend (xs ++ ys) := by
  have hcollected : f.collected ++ xs ++ ys = f.collected ++ (xs ++ ys) :=
    Array.toList_inj.mp (by simp)
  simp [extend, hcollected, Nat.sub_sub]

/-- A fragment that does not have the whole record goes on waiting. -/
theorem awaits_extend {f : Fragment} {o : Outstanding} (hi : f.head.fileIndex = o.fileIndex)
    (ht : f.head.tag = o.tag) (hm : f.missing = o.rest.length) {k : Nat} (hk : k < o.rest.length) :
    (f.extend (o.rest.take k)).Awaits (o.after k) ∧ (f.extend (o.rest.take k)).missing ≠ 0 := by
  have hmissing : (f.extend (o.rest.take k)).missing = (o.after k).rest.length := by
    simp only [o.length_rest_after, extend, hm, List.length_take]
    omega
  refine ⟨⟨rfl, hi, ht, hmissing⟩, ?_⟩
  rw [hmissing, o.length_rest_after]
  omega

theorem extend_after (f : Fragment) (o : Outstanding) (k : Nat) :
    (f.extend (o.rest.take k)).extend (o.after k).rest = f.extend o.rest := by
  rw [extend_extend, Outstanding.after, List.take_append_drop]

end Fragment

namespace Assembler

section Steps
variable {o : Outstanding}

/-- A piece that is not told to be a later one starts a record. -/
theorem begin_header (ht : o.pieceTag.isContinuation = false) (hl : o.rest.length < 2 ^ 32)
    (a : Assembler) (number : UInt32) (session : Session) (data : Bytes) :
    a.begin number ⟨o.header session, data⟩
      = a.grow ⟨o.header session, number, #[], o.rest.length⟩ data := by
  have htag : ¬(o.header session).tag.isContinuation = true := by
    rw [Outstanding.header, ht]
    decide
  rw [begin, if_neg htag, o.toNat_outstanding_header session hl]

theorem begin_whole (ht : o.pieceTag.isContinuation = false) (hl : o.rest.length < 2 ^ 32)
    (a : Assembler) (number : UInt32) (session : Session) :
    a.begin number ⟨o.header session, o.rest⟩
      = ({ a with pending := none, records := a.records + 1 },
        [.ok ⟨o.fileIndex, o.pieceTag, o.rest, session, number⟩]) := by
  rw [begin_header ht hl]
  simp [grow, Fragment.extend, Fragment.toRecord, Outstanding.header]

theorem begin_part (ht : o.pieceTag.isContinuation = false) (hl : o.rest.length < 2 ^ 32) {k : Nat}
    (hk : k < o.rest.length) (a : Assembler) (number : UInt32) (session : Session) :
    a.begin number ⟨o.header session, o.rest.take k⟩
      = ({ a with pending := some ((⟨o.header session, number, #[], o.rest.length⟩ :
        Fragment).extend (o.rest.take k)) }, []) := by
  have hopen : ((⟨o.header session, number, #[], o.rest.length⟩ : Fragment).extend
      (o.rest.take k)).missing ≠ 0 := by
    simp only [Fragment.extend, List.length_take]
    omega
  rw [begin_header ht hl]
  simp only [grow, if_neg hopen]

section Waiting
variable {a : Assembler} {f : Fragment}

/-- A fragment takes the next piece of its record and goes on waiting. -/
theorem receive_part (ht : 0 < o.tag.raw) (hl : o.rest.length < 2 ^ 32) (ha : a.pending = some f)
    (hf : f.Awaits o) {k : Nat} (hk : k < o.rest.length) (number : UInt32) (session : Session) :
    (f.extend (o.rest.take k)).Awaits (o.after k) ∧
      a.receive number ⟨o.header session, o.rest.take k⟩
        = ({ a with pending := some (f.extend (o.rest.take k)) }, []) := by
  have hcont := Fragment.continuedBy_header hf session ht hl
  obtain ⟨hawaits, hopen⟩ := Fragment.awaits_extend hf.fileIndex hf.tag hf.missing hk
  exact ⟨hawaits, by simp [receive, ha, hcont, grow, hopen, discard]⟩

/-- The last piece completes the record. -/
theorem receive_last (ht : 0 < o.tag.raw) (hl : o.rest.length < 2 ^ 32) (ha : a.pending = some f)
    (hf : f.Awaits o) (number : UInt32) (session : Session) :
    a.receive number ⟨o.header session, o.rest⟩
      = ({ a with pending := none, records := a.records + 1 },
        [.ok (f.extend o.rest).toRecord]) := by
  have hcont := Fragment.continuedBy_header hf session ht hl
  have hdone : (f.extend o.rest).missing = 0 := by simp [Fragment.extend, hf.missing]
  simp [receive, ha, hcont, grow, hdone, discard]

end Waiting
end Steps

/-- Takes a piece from its block, or forgets what waits where that block is lost. -/
def meet (kept : Nat → Bool) (a : Assembler) (q : Placed) :
    Assembler × List (Except RecordError Record) :=
  if kept q.block then a.receive q.block.toUInt32 q.piece else (a.discard, [])

def meetAll (kept : Nat → Bool) (a : Assembler) :
    List Placed → Assembler × List (Except RecordError Record)
  | [] => (a, [])
  | q :: qs =>
    let (c, xs) := a.meet kept q
    let (d, ys) := c.meetAll kept qs
    (d, xs ++ ys)

theorem meetAll_append (kept : Nat → Bool) (a : Assembler) (ps qs : List Placed) :
    a.meetAll kept (ps ++ qs) =
      ((a.meetAll kept ps).1.meetAll kept qs |>.1,
        (a.meetAll kept ps).2 ++ ((a.meetAll kept ps).1.meetAll kept qs).2) := by
  induction ps generalizing a with
  | nil => simp [meetAll]
  | cons p ps ih => simp [meetAll, ih]

/-- The pieces of a block that is not lost are received one after another. -/
theorem meetAll_block {kept : Nat → Bool} (a : Assembler) {n : Nat} (hn : kept n = true)
    (ps : List Piece) : a.meetAll kept (ps.map (.mk n)) = a.receiveAll n.toUInt32 ps := by
  induction ps generalizing a with
  | nil => rfl
  | cons p ps ih =>
    rw [List.map_cons, meetAll, meet, if_pos hn, receiveAll]
    simp only [ih]

section Cut
variable (kept : Nat → Bool) {session : Session} {o : Outstanding} {qs : List Placed}

/-- Later pieces of a record for which nothing waits are passed over. -/
theorem meetAll_orphans (hc : o.Cut session qs) (hs : o.started = true) (ht : 0 < o.tag.raw)
    {a : Assembler} (ha : a.pending = none) :
    (a.meetAll kept qs).1.pending = none ∧ (a.meetAll kept qs).2 = [] := by
  have hskip (c : Assembler) (hc : c.pending = none) (o : Outstanding) (hs : o.started = true)
      (ht : 0 < o.tag.raw) (n : Nat) (data : Bytes) :
      (c.meet kept ⟨n, o.header session, data⟩).1.pending = none ∧
        (c.meet kept ⟨n, o.header session, data⟩).2 = [] := by
    unfold meet
    split
    · simp [receive, hc, begin, Outstanding.header, Outstanding.pieceTag, hs,
        StreamTag.isContinuation_continuation ht]
    · exact ⟨rfl, rfl⟩
  induction hc generalizing a with
  | last o n =>
    obtain ⟨hp, hx⟩ := hskip a ha o hs ht n o.rest
    simp [meetAll, hp, hx]
  | @split o qs n k hk _ ih =>
    obtain ⟨hp, hx⟩ := hskip a ha o hs ht n (o.rest.take k)
    obtain ⟨hp', hxs⟩ := ih rfl ht hp
    simp [meetAll, hp', hx, hxs]

/-- A fragment takes the next piece of its record and goes on waiting. -/
theorem meet_waiting (session : Session) (ht : 0 < o.tag.raw) (hl : o.rest.length < 2 ^ 32)
    {a : Assembler} {f : Fragment} (ha : a.pending = some f) (hf : f.Awaits o) {n : Nat}
    (hn : kept n = true) {k : Nat} (hk : k < o.rest.length) :
    (f.extend (o.rest.take k)).Awaits (o.after k) ∧
      a.meet kept ⟨n, o.header session, o.rest.take k⟩
        = ({ a with pending := some (f.extend (o.rest.take k)) }, []) := by
  obtain ⟨hawaits, hreceive⟩ := receive_part ht hl ha hf hk n.toUInt32 session
  exact ⟨hawaits, (if_pos hn).trans hreceive⟩

/-- A first piece starts a fragment. -/
theorem meet_first (hs : o.started = false) (ht : 0 < o.tag.raw) (hl : o.rest.length < 2 ^ 32)
    {a : Assembler} (ha : a.pending = none) {n : Nat} (hn : kept n = true) (data : Bytes) :
    a.meet kept ⟨n, o.header session, data⟩
      = a.grow ⟨o.header session, n.toUInt32, #[], o.rest.length⟩ data := by
  have hsign : o.pieceTag.isContinuation = false := by
    rw [Outstanding.pieceTag, hs]
    exact StreamTag.isContinuation_of_pos ht
  simp only [meet, hn, if_true, receive, ha, begin_header hsign hl]

/-- A first piece that is not the last one goes on waiting. -/
theorem meet_begun (session : Session) (hs : o.started = false) (ht : 0 < o.tag.raw)
    (hl : o.rest.length < 2 ^ 32) {a : Assembler} (ha : a.pending = none) {n : Nat}
    (hn : kept n = true) {k : Nat} (hk : k < o.rest.length) :
    ∃ f : Fragment, f = ⟨o.header session, n.toUInt32, #[], o.rest.length⟩ ∧
      (f.extend (o.rest.take k)).Awaits (o.after k) ∧
      a.meet kept ⟨n, o.header session, o.rest.take k⟩
        = ({ a with pending := some (f.extend (o.rest.take k)) }, []) := by
  obtain ⟨f, hf⟩ : ∃ f : Fragment,
    f = ⟨o.header session, n.toUInt32, #[], o.rest.length⟩ := ⟨_, rfl⟩
  have htag : o.pieceTag = o.tag := by simp [Outstanding.pieceTag, hs]
  obtain ⟨hawaits, hopen⟩ := Fragment.awaits_extend (f := f) (by rw [hf]; rfl)
    (by rw [hf]; exact htag) (by rw [hf]) hk
  refine ⟨f, hf, hawaits, ?_⟩
  rw [meet_first kept hs ht hl ha hn, ← hf]
  simp only [grow, if_neg hopen]

/-- A fragment is completed by the pieces that are left, unless one of their blocks is lost. -/
theorem meetAll_waiting (hc : o.Cut session qs) (ht : 0 < o.tag.raw)
    (hl : o.rest.length < 2 ^ 32) {a : Assembler} {f : Fragment} (ha : a.pending = some f)
    (hf : f.Awaits o) :
    if qs.all (fun q => kept q.block) then
      a.meetAll kept qs = ({ a with pending := none, records := a.records + 1 },
        [.ok (f.extend o.rest).toRecord])
    else (a.meetAll kept qs).1.pending = none ∧ (a.meetAll kept qs).2 = [] := by
  induction hc generalizing a f with
  | last o n =>
    by_cases hn : kept n = true
    · simp [meetAll, meet, hn, receive_last ht hl ha hf]
    · simp [meetAll, meet, hn, discard]
  | @split o qs n k hk hcut ih =>
    by_cases hn : kept n = true
    · obtain ⟨hawaits, hmeet⟩ := meet_waiting kept session ht hl ha hf hn hk
      have hrest := ih ht (by rw [o.length_rest_after]; omega)
        (a := { a with pending := some (f.extend (o.rest.take k)) }) rfl hawaits
      rw [f.extend_after] at hrest
      have hstep : a.meetAll kept (⟨n, o.header session, o.rest.take k⟩ :: qs)
          = ({ a with pending := some (f.extend (o.rest.take k)) } : Assembler).meetAll kept qs := by
        simp only [meetAll, hmeet, List.nil_append]
      simp only [hstep, List.all_cons, hn, Bool.true_and]
      exact hrest
    · have hlost := meetAll_orphans kept hcut rfl ht (a := a.discard) rfl
      simpa [meetAll, meet, hn] using hlost

/-- A record that was cut is found again, unless one of its blocks is lost. Nothing waits before
it, and nothing waits behind it. -/
theorem meetAll_whole (hc : o.Cut session qs) (hs : o.started = false) (ht : 0 < o.tag.raw)
    (hl : o.rest.length < 2 ^ 32) {a : Assembler} (ha : a.pending = none) :
    if qs.all (fun q => kept q.block) then
      a.meetAll kept qs = ({ a with records := a.records + 1 },
        [.ok ⟨o.fileIndex, o.tag, o.rest, session, ((qs.map Placed.block).headD 0).toUInt32⟩])
    else (a.meetAll kept qs).1.pending = none ∧ (a.meetAll kept qs).2 = [] := by
  have htag : o.pieceTag = o.tag := by simp [Outstanding.pieceTag, hs]
  cases hc with
  | last _ n =>
    by_cases hn : kept n = true
    · simp only [meetAll, meet_first kept hs ht hl ha hn, List.all_cons, hn, List.all_nil,
        Bool.and_true]
      simp [grow, Fragment.extend, Fragment.toRecord, Outstanding.header, htag, ha]
    · simp [meetAll, meet, hn, discard]
  | @split _ qs n k hk hcut =>
    by_cases hn : kept n = true
    · obtain ⟨f, hf, hawaits, hmeet⟩ := meet_begun kept session hs ht hl ha hn hk
      have hrest := meetAll_waiting kept hcut ht (by rw [o.length_rest_after]; omega)
        (a := { a with pending := some (f.extend (o.rest.take k)) }) rfl hawaits
      have hwhole : (f.extend o.rest).toRecord
          = ⟨o.fileIndex, o.tag, o.rest, session, n.toUInt32⟩ := by
        rw [hf]
        simp [Fragment.extend, Fragment.toRecord, Outstanding.header, htag]
      have hstep : a.meetAll kept (⟨n, o.header session, o.rest.take k⟩ :: qs)
          = ({ a with pending := some (f.extend (o.rest.take k)) } : Assembler).meetAll kept qs := by
        simp only [meetAll, hmeet, List.nil_append]
      rw [f.extend_after, hwhole] at hrest
      simp only [hstep, ha, List.all_cons, hn, Bool.true_and]
      exact hrest
    · have hlost := meetAll_orphans kept hcut rfl ht (a := a.discard) rfl
      simpa [meetAll, meet, hn, discard] using hlost

end Cut

end Assembler
end BackupVolume
