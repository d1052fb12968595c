import BackupVolume.Record.Assembly
import Mathlib.Algebra.Group.Nat.Defs

/-! # Assembling records piece by piece

Everything that a block yields is obtained by unpacking it until it is exhausted, behind every
broken record as well. Where the record area consists of pieces, this is the same as receiving the
pieces one after another.
-/
namespace BackupVolume

structure Piece where
  head : PieceHeader
  data : Bytes

namespace Piece

def toBytes (layout : HeaderLayout) (p : Piece) : Bytes := p.head.toBytes layout ++ p.data

def IsLast (p : Piece) : Prop := p.data.length = p.head.outstanding.toNat

instance (p : Piece) : Decidable p.IsLast := inferInstanceAs (Decidable (_ = _))

theorem length_toBytes (layout : HeaderLayout) (p : Piece) :
    (p.toBytes layout).length = layout.recordHeaderLength + p.data.length := by
  simp [toBytes]

end Piece

/-- A header is read back in a block of its session; in the first layout it names the session. -/
theorem PieceHeader.ofBytes_toBytes {layout : HeaderLayout} {session : Session} {h : PieceHeader}
    (hs : layout = .bb01 ∨ h.session = session) :
    ofBytes layout session (h.toBytes layout) = h := by
  obtain ⟨fileIndex, tag, outstanding, s⟩ := h
  cases layout <;>
    simp [ofBytes, toBytes, Bytes.slice, List.drop_append, List.take_of_length_le,
      List.drop_of_length_le] at hs ⊢
  · exact hs.symm
  · exact hs.symm

namespace Assembler

def unpackAll (a : Assembler) (b : LoadedBlock) : Assembler × List (Except RecordError Record) :=
  match _unpacked : a.unpack b with
  | (c, d, .ok (.record r)) => let (e, xs) := unpackAll c d; (e, .ok r :: xs)
  | (c, _, .ok .exhausted) => (c, [])
  | (c, d, .error e) => let (f, xs) := unpackAll c d; (f, .error e :: xs)
termination_by (b.rest.length, if a.isPending then 1 else 0)
decreasing_by
  · exact Prod.Lex.left _ _ (rest_lt_of_unpack _unpacked)
  · obtain ⟨rfl, waits, rfl⟩ := eq_of_unpack_error _unpacked
    apply Prod.Lex.right
    simp only [waits, if_true]
    exact Nat.one_pos

def grow (a : Assembler) (f : Fragment) (data : Bytes) :
    Assembler × List (Except RecordError Record) :=
  let grown := f.extend data
  if grown.missing = 0 then
    ({ a with pending := none, records := a.records + 1 }, [.ok grown.toRecord])
  else ({ a with pending := some grown }, [])

def begin (a : Assembler) (number : UInt32) (p : Piece) :
    Assembler × List (Except RecordError Record) :=
  if p.head.tag.isContinuation then ({ a with orphans := a.orphans + 1 }, [])
  else a.grow ⟨p.head, number, #[], p.head.outstanding.toNat⟩ p.data

def receive (number : UInt32) (a : Assembler) (p : Piece) :
    Assembler × List (Except RecordError Record) :=
  match a.pending with
  | none => a.begin number p
  | some f =>
    if f.continuedBy p.head then a.discard.grow f p.data
    else
      let (c, xs) := a.discard.begin number p
      (c, .error (.brokenContinuation number f.head.fileIndex f.missing p.head) :: xs)

def receiveAll (number : UInt32) (a : Assembler) :
    List Piece → Assembler × List (Except RecordError Record)
  | [] => (a, [])
  | p :: ps =>
    let (c, xs) := a.receive number p
    let (d, ys) := c.receiveAll number ps
    (d, xs ++ ys)

theorem unpackAll_record {a c : Assembler} {b d : LoadedBlock} {r : Record}
    (h : a.unpack b = (c, d, .ok (.record r))) :
    a.unpackAll b = ((c.unpackAll d).1, .ok r :: (c.unpackAll d).2) := by
  rw [unpackAll]
  split <;> rename_i unpacked <;> rw [h] at unpacked <;> cases unpacked
  rfl

theorem unpackAll_exhausted {a c : Assembler} {b d : LoadedBlock}
    (h : a.unpack b = (c, d, .ok .exhausted)) : a.unpackAll b = (c, []) := by
  rw [unpackAll]
  split <;> rename_i unpacked <;> rw [h] at unpacked <;> cases unpacked
  rfl

theorem unpackAll_error {a c : Assembler} {b d : LoadedBlock} {e : RecordError}
    (h : a.unpack b = (c, d, .error e)) :
    a.unpackAll b = ((c.unpackAll d).1, .error e :: (c.unpackAll d).2) := by
  rw [unpackAll]
  split <;> rename_i unpacked <;> rw [h] at unpacked <;> cases unpacked
  rfl

/-- What a block yields depends on the first unpacking alone. -/
theorem unpackAll_congr {a c : Assembler} {b d : LoadedBlock} (h : a.unpack b = c.unpack d) :
    a.unpackAll b = c.unpackAll d := by
  rcases hc : c.unpack d with ⟨e, b', x | r | _⟩
  · rw [unpackAll_error hc, unpackAll_error (h.trans hc)]
  · rw [unpackAll_record hc, unpackAll_record (h.trans hc)]
  · rw [unpackAll_exhausted hc, unpackAll_exhausted (h.trans hc)]

theorem unpackAll_nil (a : Assembler) {b : LoadedBlock} (h : b.rest = []) :
    a.unpackAll b = (a, []) := by
  have hn := b.layout.recordHeaderLength_pos
  refine unpackAll_exhausted (d := b.exhausted) ?_
  rw [unpack]
  simp [h, hn]

/-- Taking what a block holds of a record is adding it to the record. -/
theorem unpackAll_settle {a e : Assembler} {b c : LoadedBlock} {f : Fragment} {data rest : Bytes}
    (hu : a.unpack b = ((e.settle f c).1, (e.settle f c).2.1, .ok (e.settle f c).2.2))
    (hr : c.rest = data ++ rest)
    (hd : data.length = f.missing ∨ rest = [] ∧ data.length ≤ f.missing) :
    a.unpackAll b =
      ((e.grow f data).1.unpackAll { c with rest } |>.1,
        (e.grow f data).2 ++ ((e.grow f data).1.unpackAll { c with rest }).2) := by
  have htake : c.rest.take f.missing = data := by
    rcases hd with hd | ⟨rfl, hd⟩
    · rw [hr, List.take_left' hd]
    · rw [hr, List.append_nil, List.take_of_length_le hd]
  have hdrop : c.drop f.missing = { c with rest } := by
    rcases hd with hd | ⟨rfl, hd⟩
    · rw [LoadedBlock.drop, hr, List.drop_left' hd]
    · rw [LoadedBlock.drop, hr, List.append_nil, List.drop_of_length_le hd]
  rw [settle, htake, hdrop] at hu
  rw [grow]
  by_cases hm : (f.extend data).missing = 0
  · simp only [if_pos hm] at hu ⊢
    rw [unpackAll_record hu, List.singleton_append]
  · simp only [if_neg hm] at hu ⊢
    have hrest : rest = [] := by
      rcases hd with hd | hd
      · exact absurd (by simp [Fragment.extend, hd]) hm
      · exact hd.1
    rw [unpackAll_exhausted hu, unpackAll_nil _ (by exact hrest), List.nil_append]

section Head
variable {b : LoadedBlock} {p : Piece} {rest : Bytes}

theorem take_of_head (hb : b.rest = p.toBytes b.layout ++ rest) :
    b.rest.take b.layout.recordHeaderLength = p.head.toBytes b.layout := by
  rw [hb, Piece.toBytes, List.append_assoc, List.take_left' (by simp)]

theorem drop_of_head (hb : b.rest = p.toBytes b.layout ++ rest) :
    (b.drop b.layout.recordHeaderLength).rest = p.data ++ rest := by
  rw [LoadedBlock.drop, hb, Piece.toBytes, List.append_assoc, List.drop_left' (by simp)]

/-- A piece at the head of a block starts a record or is skipped where no record waits. -/
theorem unpackAll_begin (hs : b.layout = .bb01 ∨ p.head.session = b.session)
    (hb : b.rest = p.toBytes b.layout ++ rest)
    (hd : p.IsLast ∨ rest = [] ∧ p.data.length ≤ p.head.outstanding.toNat)
    {a : Assembler} (ha : a.pending = none) :
    a.unpackAll b =
      ((a.begin b.number p).1.unpackAll { b with rest } |>.1,
        (a.begin b.number p).2 ++ ((a.begin b.number p).1.unpackAll { b with rest }).2) := by
  have htake := take_of_head hb
  have hdrop := drop_of_head hb
  have hhead := PieceHeader.ofBytes_toBytes hs
  have hlong : ¬(p.head.toBytes b.layout).length < b.layout.recordHeaderLength := by simp
  rw [begin]
  by_cases hcont : p.head.tag.isContinuation = true
  · have hskip : b.drop (b.layout.recordHeaderLength + p.head.outstanding.toNat)
        = { b with rest } := by
      have hbehind :
          b.rest.drop (b.layout.recordHeaderLength + p.head.outstanding.toNat) = rest := by
        rw [← List.drop_drop]
        change (b.drop b.layout.recordHeaderLength).rest.drop _ = _
        rcases hd with hd | ⟨rfl, hd⟩
        · rw [hdrop, List.drop_left' hd]
        · rw [hdrop, List.append_nil, List.drop_of_length_le hd]
      rw [LoadedBlock.drop, hbehind]
    rw [if_pos hcont, List.nil_append]
    apply unpackAll_congr
    rw [unpack]
    simp only [htake, hhead, dif_neg hlong, ha, if_pos hcont, hskip]
  · rw [if_neg hcont]
    refine unpackAll_settle (e := a) (c := b.drop b.layout.recordHeaderLength) ?_ hdrop hd
    rw [unpack]
    simp only [htake, hhead, dif_neg hlong, ha, if_neg hcont]

/-- A piece at the head of a block is received, and the rest of the block is unpacked. The last
piece of a block may leave some of its record to later blocks. -/
theorem unpackAll_piece (a : Assembler) (hs : b.layout = .bb01 ∨ p.head.session = b.session)
    (hb : b.rest = p.toBytes b.layout ++ rest)
    (hd : p.IsLast ∨ rest = [] ∧ p.data.length ≤ p.head.outstanding.toNat) :
    a.unpackAll b =
      ((a.receive b.number p).1.unpackAll { b with rest } |>.1,
        (a.receive b.number p).2 ++ ((a.receive b.number p).1.unpackAll { b with rest }).2) := by
  have htake := take_of_head hb
  have hhead := PieceHeader.ofBytes_toBytes hs
  have hlong : ¬(p.head.toBytes b.layout).length < b.layout.recordHeaderLength := by simp
  rw [receive]
  cases hp : a.pending with
  | none => exact unpackAll_begin hs hb hd hp
  | some f =>
    by_cases hcont : f.continuedBy p.head = true
    · have hmissing : p.head.outstanding.toNat = f.missing := by
        simp only [Fragment.continuedBy, Bool.and_eq_true, beq_iff_eq] at hcont
        exact hcont.2
      rw [Piece.IsLast, hmissing] at hd
      simp only [if_pos hcont]
      refine unpackAll_settle (e := a.discard) (c := b.drop b.layout.recordHeaderLength) ?_
        (drop_of_head hb) hd
      rw [unpack]
      simp only [htake, hhead, dif_neg hlong, hp, if_pos hcont]
    · have hu : a.unpack b = (a.discard, b, .error (.brokenContinuation b.number f.head.fileIndex
          f.missing p.head)) := by
        rw [unpack]
        simp only [htake, hhead, dif_neg hlong, hp, if_neg hcont]
      have hbegin := unpackAll_begin hs hb hd (a := a.discard) rfl
      simp only [if_neg hcont]
      rw [unpackAll_error hu, hbegin, List.cons_append]

end Head

/-- A block that consists of pieces yields what receiving them yields. Only its last piece may
leave some of its record to later blocks. -/
theorem unpackAll_pieces (a : Assembler) {b : LoadedBlock} {ps : List Piece}
    (hs : ∀ p ∈ ps, b.layout = .bb01 ∨ p.head.session = b.session)
    (hb : b.rest = ps.flatMap (Piece.toBytes b.layout))
    (hd : ∀ p ∈ ps, p.data.length ≤ p.head.outstanding.toNat)
    (hl : ∀ p ∈ ps.dropLast, p.IsLast) :
    a.unpackAll b = a.receiveAll b.number ps := by
  induction ps generalizing a b with
  | nil => exact unpackAll_nil a hb
  | cons p ps ih =>
    have hpiece : p.IsLast ∨ ps.flatMap (Piece.toBytes b.layout) = [] ∧
        p.data.length ≤ p.head.outstanding.toNat := by
      cases ps with
      | nil => exact .inr ⟨rfl, hd p (by simp)⟩
      | cons q qs => exact .inl (hl p (by simp))
    have hrest (c : Assembler) :
        c.unpackAll { b with rest := ps.flatMap (Piece.toBytes b.layout) }
          = c.receiveAll b.number ps := by
      refine ih c (fun q hq => hs q (by simp [hq])) rfl (fun q hq => hd q (by simp [hq])) ?_
      intro q hq
      apply hl q
      cases ps with
      | nil => simp at hq
      | cons r rs => exact List.mem_cons_of_mem _ hq
    rw [List.flatMap_cons] at hb
    rw [unpackAll_piece a (hs p (by simp)) hb hpiece, receiveAll, hrest]

end Assembler
end BackupVolume
