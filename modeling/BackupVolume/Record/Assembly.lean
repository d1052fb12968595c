import BackupVolume.Block.Loaded
import BackupVolume.Record.Piece

/-! # Putting records together

An assembler takes pieces from one block after another and hands out complete records. A record
that goes on in a later block waits as a fragment; the next piece must then be its continuation,
which is checked by file index, tag and the number of outstanding octets. A continuation without a
fragment is skipped.
-/
namespace BackupVolume

structure Fragment where
  head : PieceHeader
  blockNumber : UInt32
  collected : Array UInt8
  missing : Nat

namespace Fragment

def continuedBy (f : Fragment) (h : PieceHeader) : Bool :=
  h.tag.isContinuation && h.fileIndex == f.head.fileIndex && h.tag == f.head.tag.continuation
    && h.outstanding.toNat == f.missing

def extend (f : Fragment) (data : Bytes) : Fragment :=
  { f with collected := f.collected ++ data, missing := f.missing - data.length }

def toRecord (f : Fragment) : Record :=
  ⟨f.head.fileIndex, f.head.tag, f.collected.toList, f.head.session, f.blockNumber⟩

end Fragment

inductive RecordError where
  | brokenContinuation (blockNumber : UInt32) (fileIndex : Int32) (expected : Nat)
      (found : PieceHeader)
  deriving DecidableEq

def RecordError.message : RecordError → String
  | .brokenContinuation number index expected found =>
    "broken continuation in block " ++ toString number ++ ": file index " ++ toString index
      ++ " awaited " ++ toString expected ++ " bytes, found file index "
      ++ toString found.fileIndex ++ " stream " ++ toString found.tag.raw ++ " len "
      ++ toString found.outstanding

structure Assembler where
  pending : Option Fragment := none
  records : Nat := 0
  /-- Continuations skipped because no record was waiting for them. -/
  orphans : Nat := 0

inductive Unpacked where
  | record (r : Record)
  /-- The block holds no further complete record. -/
  | exhausted

namespace Assembler

def isPending (a : Assembler) : Bool := a.pending.isSome

def discard (a : Assembler) : Assembler := { a with pending := none }

/-- Takes what the block holds of a record, which is then complete or waits for more. -/
def settle (a : Assembler) (f : Fragment) (b : LoadedBlock) : Assembler × LoadedBlock × Unpacked :=
  let grown := f.extend (b.rest.take f.missing)
  if grown.missing = 0 then
    ({ a with pending := none, records := a.records + 1 }, b.drop f.missing, .record grown.toRecord)
  else ({ a with pending := some grown }, b.drop f.missing, .exhausted)

/-- The next complete record of a block. A piece that does not continue the waiting record drops
that record and is left in the block, to be read as the start of another. -/
def unpack (a : Assembler) (b : LoadedBlock) :
    Assembler × LoadedBlock × Except RecordError Unpacked :=
  let n := b.layout.recordHeaderLength
  let raw := b.rest.take n
  if _short : raw.length < n then (a, b.exhausted, .ok .exhausted)
  else
    let head := PieceHeader.ofBytes b.layout b.session raw
    match a.pending with
    | some f =>
      if f.continuedBy head then
        let (a, b, u) := a.discard.settle f (b.drop n)
        (a, b, .ok u)
      else
        (a.discard, b, .error (.brokenContinuation b.number f.head.fileIndex f.missing head))
    | none =>
      if head.tag.isContinuation then
        unpack { a with orphans := a.orphans + 1 } (b.drop (n + head.outstanding.toNat))
      else
        let (a, b, u) := a.settle ⟨head, b.number, #[], head.outstanding.toNat⟩ (b.drop n)
        (a, b, .ok u)
termination_by b.rest.length
decreasing_by
  have := b.layout.recordHeaderLength_pos
  simp only [raw, n, List.length_take] at _short
  simp only [LoadedBlock.drop, List.length_drop]
  omega

theorem rest_settle_le (a : Assembler) (f : Fragment) (b : LoadedBlock) :
    (a.settle f b).2.1.rest.length ≤ b.rest.length := by
  rw [settle]
  split <;> simp only [LoadedBlock.drop, List.length_drop] <;> omega

/-- A record that is handed out has used up at least its header. -/
theorem rest_lt_of_unpack {a c : Assembler} {b d : LoadedBlock} {r : Record}
    (h : a.unpack b = (c, d, .ok (.record r))) : d.rest.length < b.rest.length := by
  have pos := b.layout.recordHeaderLength_pos
  fun_induction unpack a b with
  | case1 => simp at h
  | case2 a b n raw short head f _ _ a' b' u settled =>
    have := rest_settle_le a.discard f (b.drop n)
    rw [settled] at this
    simp only [raw, n, List.length_take] at short
    simp only [LoadedBlock.drop, List.length_drop, n] at this
    simp only [Prod.mk.injEq] at h
    rw [← h.2.1]
    omega
  | case3 => simp at h
  | case4 a b n raw short head _ _ ih =>
    have := ih h pos
    simp only [raw, n, List.length_take] at short
    simp only [LoadedBlock.drop, List.length_drop, n] at this
    omega
  | case5 a b n raw short head _ _ a' b' u settled =>
    have := rest_settle_le a ⟨head, b.number, #[], head.outstanding.toNat⟩ (b.drop n)
    rw [settled] at this
    simp only [raw, n, List.length_take] at short
    simp only [LoadedBlock.drop, List.length_drop, n] at this
    simp only [Prod.mk.injEq] at h
    rw [← h.2.1]
    omega

/-- Only a record that waits can be broken. It is forgotten, and the block stays as it is. -/
theorem eq_of_unpack_error {a c : Assembler} {b d : LoadedBlock} {e : RecordError}
    (h : a.unpack b = (c, d, .error e)) : d = b ∧ a.isPending = true ∧ c = a.discard := by
  fun_induction unpack a b with
  | case1 => simp at h
  | case2 => simp at h
  | case3 a b n raw short head f waits _ =>
    simp only [Prod.mk.injEq] at h
    exact ⟨h.2.1.symm, by simp [isPending, waits], h.1.symm⟩
  | case4 a b n raw short head none _ ih =>
    have := (ih h).2.1
    simp [isPending, none] at this
  | case5 => simp at h

end Assembler
end BackupVolume
