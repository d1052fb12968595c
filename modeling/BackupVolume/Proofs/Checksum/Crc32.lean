import BackupVolume.Checksum.Crc32
import Mathlib.Logic.Function.Iterate

/-! # Short bursts change the cyclic redundancy check

The register takes in its bits linearly, so that two registers differ by what their difference comes
to. The polynomial has its highest bit set: a difference that is clear from some place on after a step
was clear from the next place on before it, and clear in its lowest bit. Up to four octets have no more
bits than the register, so that different octets leave different registers, and no octets behind them
make these equal again.
-/
namespace BackupVolume.Checksum.Crc32

/-- The bits move down by one place; the polynomial is taken in where the lowest bit was set. -/
theorem getLsbD_shift (c : UInt32) (i : Nat) : (shift c).toBitVec.getLsbD i
    = (c.toBitVec.getLsbD (i + 1) ^^ (c.toBitVec.getLsbD 0 && polynomial.toBitVec.getLsbD i)) := by
  have hlow : (c &&& 1 == 1) = c.toBitVec.getLsbD 0 := by
    have hand : (c &&& 1).toBitVec = BitVec.setWidth 32 (BitVec.ofBool (c.toBitVec.getLsbD 0)) := by
      rw [UInt32.toBitVec_and]
      exact BitVec.and_one_eq_setWidth_ofBool_getLsbD
    rw [Bool.eq_iff_iff, beq_iff_eq, ← UInt32.toBitVec_inj, hand]
    cases c.toBitVec.getLsbD 0 <;> decide
  rw [shift, hlow]
  cases c.toBitVec.getLsbD 0 <;> simp [Nat.add_comm 1 i]

theorem shift_xor (c d : UInt32) : shift (c ^^^ d) = shift c ^^^ shift d := by
  apply UInt32.toBitVec_inj.mp
  apply BitVec.eq_of_getLsbD_eq
  intro i _
  simp only [getLsbD_shift, UInt32.toBitVec_xor, BitVec.getLsbD_xor]
  cases c.toBitVec.getLsbD 0 <;> cases d.toBitVec.getLsbD 0 <;>
    cases polynomial.toBitVec.getLsbD i <;> simp

theorem iterate_shift_xor (n : Nat) (c d : UInt32) :
    shift^[n] (c ^^^ d) = shift^[n] c ^^^ shift^[n] d := by
  induction n generalizing c d with
  | zero => rfl
  | succ n ih => rw [Function.iterate_succ_apply, shift_xor, ih]; rfl

def ClearFrom (n : Nat) (c : UInt32) : Prop := ∀ i, n ≤ i → c.toBitVec.getLsbD i = false

theorem clearFrom_zero : ClearFrom 0 0 := fun _ _ => BitVec.getLsbD_zero ..

theorem clearFrom_octet (b : UInt8) : ClearFrom 8 b.toUInt32 := by
  intro i hi
  rw [UInt8.toBitVec_toUInt32, BitVec.getLsbD_setWidth, BitVec.getLsbD_of_ge _ _ hi, Bool.and_false]

theorem ClearFrom.mono {m n : Nat} {c : UInt32} (h : ClearFrom m c) (hle : m ≤ n) :
    ClearFrom n c := fun i hi => h i (Nat.le_trans hle hi)

theorem ClearFrom.xor {n : Nat} {c d : UInt32} (hc : ClearFrom n c) (hd : ClearFrom n d) :
    ClearFrom n (c ^^^ d) := by
  intro i hi
  rw [UInt32.toBitVec_xor, BitVec.getLsbD_xor, hc i hi, hd i hi]
  rfl

theorem eq_zero_of_clear {n : Nat} {c : UInt32} (hhigh : ClearFrom n c)
    (hlow : ∀ i < n, c.toBitVec.getLsbD i = false) : c = 0 := by
  apply UInt32.toBitVec_inj.mp
  apply BitVec.eq_of_getLsbD_eq
  intro i _
  rw [UInt32.toBitVec_zero, BitVec.getLsbD_zero]
  rcases Nat.lt_or_ge i n with hi | hi
  · exact hlow i hi
  · exact hhigh i hi

/-- The highest bit tells that the polynomial was not taken in. -/
theorem ClearFrom.of_shift {n : Nat} {c : UInt32} (h : ClearFrom n (shift c)) (hn : n < 32) :
    ClearFrom (n + 1) c ∧ c.toBitVec.getLsbD 0 = false ∧
      ∀ i, c.toBitVec.getLsbD (i + 1) = (shift c).toBitVec.getLsbD i := by
  have hlow : c.toBitVec.getLsbD 0 = false := by
    have hlast := getLsbD_shift c 31
    have htaken : polynomial.toBitVec.getLsbD 31 = true := by decide
    rw [h 31 (by omega), BitVec.getLsbD_of_ge _ (31 + 1) (by decide), htaken, Bool.and_true,
      Bool.false_xor] at hlast
    exact hlast.symm
  have hmoved (i : Nat) : c.toBitVec.getLsbD (i + 1) = (shift c).toBitVec.getLsbD i := by
    rw [getLsbD_shift, hlow, Bool.false_and, Bool.xor_false]
  refine ⟨fun i hi => ?_, hlow, hmoved⟩
  obtain ⟨i, rfl⟩ : ∃ m, i = m + 1 := ⟨i - 1, by omega⟩
  rw [hmoved]
  exact h i (by omega)

/-- As long as there is room above, nothing is taken in while the register moves down. -/
theorem ClearFrom.of_iterate_shift {n k : Nat} {c : UInt32} (h : ClearFrom n (shift^[k] c))
    (hn : n + k ≤ 32) : ClearFrom (n + k) c ∧ ∀ i < k, c.toBitVec.getLsbD i = false := by
  induction k generalizing c with
  | zero => exact ⟨h, fun i hi => absurd hi (Nat.not_lt_zero i)⟩
  | succ k ih =>
    rw [Function.iterate_succ_apply] at h
    obtain ⟨hhigh, hlow⟩ := ih h (by omega)
    obtain ⟨hclear, hfirst, hmoved⟩ := hhigh.of_shift (by omega)
    refine ⟨hclear, fun i hi => ?_⟩
    cases i with
    | zero => exact hfirst
    | succ i => rw [hmoved, hlow i (by omega)]

theorem step_xor_step (c d : UInt32) (a b : UInt8) :
    step c a ^^^ step d b = shift^[8] (c ^^^ d ^^^ (a.toUInt32 ^^^ b.toUInt32)) := by
  have hsum : c ^^^ d ^^^ (a.toUInt32 ^^^ b.toUInt32)
      = c ^^^ a.toUInt32 ^^^ (d ^^^ b.toUInt32) := by ac_rfl
  rw [hsum, iterate_shift_xor]
  rfl

theorem eq_of_step_eq {c d : UInt32} {b : UInt8} (h : step c b = step d b) : c = d := by
  have hclear : ClearFrom 0 (shift^[8] (c ^^^ d ^^^ (b.toUInt32 ^^^ b.toUInt32))) := by
    rw [← step_xor_step, h, UInt32.xor_self]
    exact clearFrom_zero
  obtain ⟨hhigh, hlow⟩ := hclear.of_iterate_shift (by decide)
  have hzero := eq_zero_of_clear hhigh hlow
  rw [UInt32.xor_self, UInt32.xor_zero] at hzero
  exact UInt32.xor_eq_zero_iff.mp hzero

/-- No octets make different registers equal. -/
theorem register_injective (bs : Bytes) : Function.Injective fun c => register c bs := by
  induction bs with
  | nil => exact fun _ _ h => h
  | cons b bs ih => exact fun c d h => eq_of_step_eq (ih h)

/-- Where a few octets end in the same register, the registers before them differed in no more places
than the octets have; from the same register, the octets are the same. -/
theorem clearFrom_of_register_eq {c d : UInt32} {as bs : Bytes} (hl : as.length = bs.length)
    (hfew : as.length ≤ 4) (h : register c as = register d bs) :
    ClearFrom (8 * as.length) (c ^^^ d) ∧ (c = d → as = bs) := by
  induction as generalizing c d bs with
  | nil =>
    obtain rfl := List.length_eq_zero_iff.mp hl.symm
    obtain rfl : c = d := h
    rw [UInt32.xor_self]
    exact ⟨clearFrom_zero, fun _ => rfl⟩
  | cons a as ih =>
    obtain ⟨b, bs, rfl⟩ := List.exists_cons_of_length_eq_add_one hl.symm
    rw [List.length_cons] at hfew
    obtain ⟨hclear, hsame⟩ := ih (Nat.succ.inj hl) (by omega) h
    rw [step_xor_step] at hclear
    obtain ⟨hhigh, hlow⟩ := hclear.of_iterate_shift (by omega)
    have hoctets : ClearFrom 8 (a.toUInt32 ^^^ b.toUInt32) :=
      (clearFrom_octet a).xor (clearFrom_octet b)
    have hwide : 8 * (a :: as).length = 8 * as.length + 8 := by rw [List.length_cons, Nat.mul_succ]
    refine ⟨?_, fun hcd => ?_⟩
    · have hcancel : c ^^^ d
          = c ^^^ d ^^^ (a.toUInt32 ^^^ b.toUInt32) ^^^ (a.toUInt32 ^^^ b.toUInt32) := by
        rw [UInt32.xor_assoc, UInt32.xor_self, UInt32.xor_zero]
      rw [hcancel, hwide]
      exact hhigh.xor (hoctets.mono (by omega))
    · subst hcd
      rw [UInt32.xor_self, UInt32.zero_xor] at hlow
      have hab : a = b := by
        have hzero := eq_zero_of_clear hoctets hlow
        exact UInt8.toUInt32_inj.mp (UInt32.xor_eq_zero_iff.mp hzero)
      subst hab
      rw [hsame rfl]

/-- A change of at most four octets changes the check. -/
theorem checksum_ne {front as bs rest : Bytes} (hl : as.length = bs.length)
    (hfew : as.length ≤ 4) (hne : as ≠ bs) :
    checksum (front ++ (as ++ rest)) ≠ checksum (front ++ (bs ++ rest)) := by
  intro h
  rw [checksum, checksum, UInt32.xor_left_inj] at h
  simp only [register_append] at h
  exact hne ((clearFrom_of_register_eq hl hfew (register_injective rest h)).2 rfl)

end BackupVolume.Checksum.Crc32
