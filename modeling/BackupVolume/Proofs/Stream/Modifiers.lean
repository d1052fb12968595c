import BackupVolume.Restore.Decoder
import Mathlib.Algebra.Group.Nat.Defs

/-! # Modifiers of stream tags

The dedup bit says nothing about the kind of a stream or about addresses, so a record keeps both when
its payload has been put together. What is done with file data is told by the kind alone.
-/
namespace BackupVolume.StreamTag
variable {t : StreamTag}

/-- The number of the kind is in the low bits of a tag. -/
theorem masked_of_small (h : 2 * t.raw.toBitVec.toNat < 2 ^ 32) :
    t.masked = t.raw.toBitVec.toNat % 2048 := by
  rw [masked, Int32.toInt, BitVec.toInt_eq_toNat_of_lt h, Int.natAbs_natCast]

theorem small_of_pos (h : 0 < t.raw) : 2 * t.raw.toBitVec.toNat < 2 ^ 32 := by
  have hpos : 0 < t.raw.toInt := by simpa [Int32.lt_iff_toInt_lt] using h
  exact BitVec.toInt_pos_iff.mp (Int.le_of_lt hpos)

theorem masked_withoutDedup (h : 0 < t.raw) : t.withoutDedup.masked = t.masked := by
  have hraw : t.withoutDedup.raw.toBitVec.toNat = t.raw.toBitVec.toNat &&& 0xFFFF7FFF := by
    rw [withoutDedup, Int32.toBitVec_and, BitVec.toNat_and]
    rfl
  have hsmall := small_of_pos h
  have hless : 2 * t.withoutDedup.raw.toBitVec.toNat < 2 ^ 32 := by
    have hle : t.raw.toBitVec.toNat &&& 0xFFFF7FFF ≤ t.raw.toBitVec.toNat := Nat.and_le_left
    omega
  have hlow : 0xFFFF7FFF % 2 ^ 11 = 2 ^ 11 - 1 := rfl
  rw [masked_of_small hless, masked_of_small hsmall, hraw]
  calc (t.raw.toBitVec.toNat &&& 0xFFFF7FFF) % 2 ^ 11
    _ = t.raw.toBitVec.toNat % 2 ^ 11 &&& 0xFFFF7FFF % 2 ^ 11 := Nat.and_mod_two_pow
    _ = t.raw.toBitVec.toNat % 2 ^ 11 % 2 ^ 11 := by rw [hlow, Nat.and_two_pow_sub_one_eq_mod]
    _ = t.raw.toBitVec.toNat % 2 ^ 11 := Nat.mod_mod _ _

theorem kind?_withoutDedup (h : 0 < t.raw) : t.withoutDedup.kind? = t.kind? := by
  rw [kind?, masked_withoutDedup h, kind?]

theorem hasOffsets_withoutDedup (h : 0 < t.raw) : t.withoutDedup.hasOffsets = t.hasOffsets := by
  have hbit : t.withoutDedup.raw &&& offsetsBit = t.raw &&& offsetsBit := by
    rw [withoutDedup, Int32.and_assoc]
    rfl
  rw [hasOffsets, hasOffsets, hbit, hasKind, hasKind, kind?_withoutDedup h]

def treatment? (t : StreamTag) : Option Treatment := t.kind?.bind Treatment.ofKind?

theorem treatment?_withoutDedup (h : 0 < t.raw) : t.withoutDedup.treatment? = t.treatment? := by
  rw [treatment?, kind?_withoutDedup h, treatment?]

theorem exists_kind_of_hasKind {q : StreamKind → Bool} (h : t.hasKind q = true) :
    ∃ k, t.kind? = some k ∧ q k = true := (Option.any_eq_true q t.kind?).mp h

theorem treatment?_of_isAttributes (h : t.isAttributes = true) :
    t.treatment? = some .attributes := by
  obtain ⟨k, hk, hq⟩ := exists_kind_of_hasKind h
  rw [treatment?, hk]
  cases k <;> first | rfl | cases hq

/-- File data become file content in one of three ways. -/
theorem treatment?_of_isFileData (h : t.isFileData = true) :
    t.treatment? = some .plain ∨ t.treatment? = some .inflate ∨ t.treatment? = some .unwrap := by
  obtain ⟨k, hk, hq⟩ := exists_kind_of_hasKind h
  rw [treatment?, hk, Option.bind_some]
  cases k <;> first | cases hq; done | simp [Treatment.ofKind?]

/-- All kinds with this treatment answer the question with yes. -/
theorem hasKind_of_treatment? {treatment : Treatment} {q : StreamKind → Bool}
    (h : t.treatment? = some treatment)
    (hq : ∀ k, Treatment.ofKind? k = some treatment → q k = true) : t.hasKind q = true := by
  obtain ⟨k, hk, htreatment⟩ := Option.bind_eq_some_iff.mp h
  rw [hasKind, hk]
  exact hq k htreatment

theorem isAttributes_of_treatment? (h : t.treatment? = some .attributes) :
    t.isAttributes = true :=
  hasKind_of_treatment? h fun k hk => by cases k <;> first | rfl | cases hk

theorem isFileData_of_treatment?
    (h : t.treatment? = some .plain ∨ t.treatment? = some .inflate ∨ t.treatment? = some .unwrap) :
    t.isFileData = true := by
  rcases h with h | h | h
  all_goals exact hasKind_of_treatment? h fun k hk => by cases k <;> first | rfl | cases hk

/-- File data describe no file, and can be decoded. -/
theorem isAttributes_of_isFileData (h : t.isFileData = true) :
    (t.isAttributes || t.isOpaqueFileData) = false := by
  obtain ⟨k, hk, hq⟩ := exists_kind_of_hasKind h
  rw [isAttributes, isOpaqueFileData, hasKind, hasKind, hk]
  cases k <;> first | rfl | cases hq

end BackupVolume.StreamTag
