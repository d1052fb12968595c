import BackupVolume.Bytes
import BackupVolume.IoFault

/-! # Streams of octets

A reader hands out octets in portions of its own choice and may be interrupted. Filling a buffer
asks for more until the buffer is full or the data end; interruptions are passed over.
-/
namespace BackupVolume

inductive Portion where
  /-- Some of the octets that come next, and none at the end of the data. -/
  | data (bytes : Bytes)
  | interrupted
  | failed (fault : IoFault)

class OctetReader (ρ : Type) where
  read : ρ → (most : Nat) → ρ × Portion
  /-- A bound on the number of times that reading can still get on. -/
  remaining : ρ → Nat
  remaining_read (r : ρ) (most : Nat) :
    match read r most with
    | (s, .data bs) => bs.length + remaining s ≤ remaining r
    | (s, .interrupted) => remaining s < remaining r
    | (_, .failed _) => True

namespace OctetReader
variable {ρ : Type} [OctetReader ρ]

theorem remaining_data {r s : ρ} {n : Nat} {bs : Bytes} (h : read r n = (s, .data bs)) :
    bs.length + remaining s ≤ remaining r := by
  have := remaining_read r n
  rwa [h] at this

theorem remaining_interrupted {r s : ρ} {n : Nat} (h : read r n = (s, .interrupted)) :
    remaining s < remaining r := by
  have := remaining_read r n
  rwa [h] at this

def fillFrom (r : ρ) (wanted : Nat) (buffer : Array UInt8) : ρ × Except IoFault Bytes :=
  if wanted = 0 then (r, .ok buffer.toList)
  else
    match _h : read r wanted with
    | (r, .failed e) => (r, .error e)
    | (r, .interrupted) => fillFrom r wanted buffer
    | (r, .data []) => (r, .ok buffer.toList)
    | (r, .data (b :: bs)) => fillFrom r (wanted - (bs.length + 1)) (buffer ++ b :: bs)
termination_by remaining r
decreasing_by
  · exact remaining_interrupted _h
  · have := remaining_data _h
    simp only [List.length_cons] at this
    omega

/-- So many octets, or as many as there are. -/
def fill (r : ρ) (wanted : Nat) : ρ × Except IoFault Bytes := fillFrom r wanted #[]

theorem remaining_fillFrom {r s : ρ} {n : Nat} {buffer : Array UInt8} {bs : Bytes}
    (h : fillFrom r n buffer = (s, .ok bs)) :
    bs.length + remaining s ≤ buffer.size + remaining r := by
  fun_induction fillFrom r n buffer with
  | case1 r buffer =>
    simp only [Prod.mk.injEq, Except.ok.injEq] at h
    exact Nat.le_of_eq (by rw [← h.1, ← h.2, Array.length_toList])
  | case2 => simp at h
  | case3 r n buffer _ r' read_eq ih =>
    have := ih h
    have := remaining_interrupted read_eq
    omega
  | case4 r n buffer _ r' read_eq =>
    have := remaining_data read_eq
    simp only [Prod.mk.injEq, Except.ok.injEq] at h
    rw [← h.1, ← h.2, Array.length_toList]
    simp only [List.length_nil] at this
    omega
  | case5 r n buffer _ r' b rest read_eq ih =>
    have grown : (buffer ++ b :: rest).size = buffer.size + (rest.length + 1) := by
      rw [← Array.length_toList, Array.toList_appendList, List.length_append, Array.length_toList,
        List.length_cons]
    have := ih h
    have := remaining_data read_eq
    simp only [List.length_cons] at this
    omega

/-- Filling a buffer uses up at least as much as it reads. -/
theorem remaining_fill {r s : ρ} {n : Nat} {bs : Bytes} (h : fill r n = (s, .ok bs)) :
    bs.length + remaining s ≤ remaining r := by
  have := remaining_fillFrom h
  simpa using this

end OctetReader

instance : OctetReader Bytes where
  read bs n := (bs.drop n, .data (bs.take n))
  remaining := List.length
  remaining_read bs n := by
    simp only [List.length_take, List.length_drop]
    omega

end BackupVolume
