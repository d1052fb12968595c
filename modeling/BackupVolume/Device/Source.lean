import BackupVolume.Bytes
import BackupVolume.IoFault

/-! # Devices to read from

A source hands out raw blocks one after another, and holds only so many of them.
-/
namespace BackupVolume

structure RawBlock where
  address : Nat
  bytes : Bytes
  deriving DecidableEq

class BlockSource (σ : Type) where
  name : σ → String
  /-- The next block; nothing at the end of the data. -/
  read : σ → σ × Except IoFault (Option RawBlock)
  release : σ → σ × Except IoFault Unit
  /-- A bound on the number of blocks that can still be read. -/
  remaining : σ → Nat
  remaining_read {s t : σ} {b : RawBlock} : read s = (t, .ok (some b)) → remaining t < remaining s

namespace BlockSource
variable {α β : Type} [BlockSource α] [BlockSource β]

instance sum : BlockSource (α ⊕ β) where
  name s := s.elim name name
  read s := match s with
    | .inl a => let (a, r) := read a; (.inl a, r)
    | .inr b => let (b, r) := read b; (.inr b, r)
  release s := match s with
    | .inl a => let (a, r) := release a; (.inl a, r)
    | .inr b => let (b, r) := release b; (.inr b, r)
  remaining s := s.elim remaining remaining
  remaining_read {s t b} h := by
    cases s <;> simp only [Prod.mk.injEq] at h <;> obtain ⟨rfl, h⟩ := h
      <;> exact remaining_read (Prod.ext rfl h)

end BlockSource
end BackupVolume
