import BackupVolume.Compression.Codec

/-! # Room for decompression

The size of a result is not known beforehand. The room for it is doubled as long as it is too
small, up to a cap, and is kept for the next payload.
-/
namespace BackupVolume.Compression

structure Scratch where
  size : Nat
  cap : Nat
  size_pos : 0 < size
  size_le_cap : size ≤ cap

namespace Scratch

/-- Room of a size that is brought between one and the cap, which is at least one. -/
def ofSizes (initial cap : Nat) : Scratch where
  size := max 1 (min initial (max cap 1))
  cap := max cap 1
  size_pos := by omega
  size_le_cap := by omega

/-- Twice the room, or all that the cap allows; nothing when the cap is reached. -/
def grow? (s : Scratch) : Option Scratch :=
  if h : s.cap ≤ s.size then none
  else some
    { size := min (2 * s.size) s.cap
      cap := s.cap
      size_pos := by have := s.size_pos; omega
      size_le_cap := by omega }

theorem size_lt_of_grow? {s t : Scratch} (h : s.grow? = some t) :
    s.size < t.size ∧ t.cap = s.cap := by
  rw [grow?] at h
  split at h
  · cases h
  · obtain rfl := Option.some.inj h
    have := s.size_pos
    exact ⟨by simp only; omega, rfl⟩

/-- Tries to decompress in growing room until the result fits. The room is kept as it was found to
be large enough, or at the cap. -/
def fit (attempt : Nat → Except CodecError (Option Bytes)) (s : Scratch) :
    Except CodecError Bytes × Scratch :=
  match attempt s.size with
  | .error e => (.error e, s)
  | .ok (some r) => (.ok r, s)
  | .ok none =>
    match _grown : s.grow? with
    | some t => fit attempt t
    | none => (.error (.bufferExhausted s.cap), s)
termination_by s.cap - s.size
decreasing_by
  have := size_lt_of_grow? _grown
  have := s.size_le_cap
  have := t.size_le_cap
  omega

end Scratch
end BackupVolume.Compression
