import BackupVolume.Text.Blank
import BackupVolume.Text.Integer

/-! # Integers are read back

An integer is written in decimal digits behind an optional minus, without blanks. Reading gives it
back where it lies within the bounds.
-/
namespace BackupVolume.Text

theorem toNat_of_isDigit {c : Char} (h : c.isDigit = true) : 48 ≤ c.toNat ∧ c.toNat ≤ 57 := by
  simp only [Char.isDigit, Bool.and_eq_true, decide_eq_true_eq] at h
  exact ⟨UInt32.le_iff_toNat_le.mp h.1, UInt32.le_iff_toNat_le.mp h.2⟩

theorem decimalDigit?_of_isDigit {c : Char} (h : c.isDigit = true) :
    decimalDigit? c = some (c.toNat - '0'.toNat) := by
  simp only [Char.isDigit, Bool.and_eq_true, decide_eq_true_eq] at h
  rw [decimalDigit?, if_pos]
  simp only [Bool.and_eq_true, decide_eq_true_eq]
  exact h

/-- Digits add up to the number that they are the digits of. -/
theorem foldlM_decimalDigit? {cs : List Char} (h : ∀ c ∈ cs, c.isDigit = true) (n : Nat) :
    cs.foldlM (fun n c => (decimalDigit? c).map (10 * n + ·)) n
      = some (Nat.ofDigitChars 10 cs n) := by
  induction cs generalizing n with
  | nil => rfl
  | cons c cs ih =>
    rw [List.foldlM_cons, decimalDigit?_of_isDigit (h c (by simp)), Nat.ofDigitChars_cons]
    exact ih (fun d hd => h d (by simp [hd])) _

theorem readDigits_toDigits (n : Nat) : readDigits (Nat.toDigits 10 n) = some n := by
  have hdigits : ∀ c ∈ Nat.toDigits 10 n, c.isDigit = true := fun c hc =>
    Nat.isDigit_of_mem_toDigits (by decide) (by decide) hc
  have hsum := foldlM_decimalDigit? hdigits 0
  rw [Nat.ofDigitChars_ten_toDigits] at hsum
  obtain ⟨c, cs, hcs⟩ := List.exists_cons_of_ne_nil (Nat.toDigits_ne_nil (n := n) (b := 10))
  rw [hcs] at hsum ⊢
  exact hsum

theorem toList_toString (n : Int) :
    (toString n).toList = (if n < 0 then ['-'] else []) ++ Nat.toDigits 10 n.natAbs := by
  rw [Int.toString_eq_repr, Int.repr_eq_if]
  rcases Int.lt_or_le n 0 with hneg | hpos
  · have hsize : (-n).toNat = n.natAbs := by omega
    rw [if_neg (Int.not_le.mpr hneg), if_pos hneg, String.toList_append, Nat.toList_repr, hsize]
    rfl
  · have hsize : n.toNat = n.natAbs := by omega
    rw [if_pos hpos, if_neg (Int.not_lt.mpr hpos), Nat.toList_repr, hsize]
    rfl

/-- Nothing is written but digits and a minus. -/
theorem of_mem_toString {n : Int} {c : Char} (h : c ∈ (toString n).toList) :
    45 ≤ c.toNat ∧ c.toNat ≤ 57 := by
  rw [toList_toString] at h
  rcases List.mem_append.mp h with h | h
  · split at h
    · rw [List.mem_singleton.mp h]
      decide
    · simp at h
  · have := toNat_of_isDigit (Nat.isDigit_of_mem_toDigits (by decide) (by decide) h)
    omega

theorem isBlank_of_mem_toString {n : Int} {c : Char} (h : c ∈ (toString n).toList) :
    isBlank c = false := by
  have := of_mem_toString h
  simp only [isBlank, blankRanges, List.any_cons, List.any_nil, Bool.or_false, Bool.or_eq_false_iff,
    Bool.and_eq_false_iff, decide_eq_false_iff_not]
  omega

theorem trimList_eq {cs : List Char} (h : ∀ c ∈ cs, isBlank c = false) : trimList cs = cs := by
  have hdrop : ∀ ds : List Char, (∀ c ∈ ds, isBlank c = false) → dropBlanks ds = ds := by
    intro ds hds
    cases ds with
    | nil => rfl
    | cons d ds => rw [dropBlanks, List.dropWhile_cons_of_neg (by simp [hds d])]
  rw [trimList, hdrop cs h, hdrop _ fun c hc => h c (List.mem_reverse.mp hc), List.reverse_reverse]

theorem trim_toString (n : Int) : trim (toString n) = toString n := by
  rw [trim, trimList_eq fun c hc => isBlank_of_mem_toString hc, String.ofList_toList]

/-- A number is read back if it lies within the bounds, and refused otherwise. -/
theorem readInteger_toString (least greatest n : Int) :
    readInteger least greatest (toString n)
      = if least ≤ n ∧ n ≤ greatest then some n else none := by
  have hread := readDigits_toDigits n.natAbs
  rw [readInteger, toList_toString]
  rcases Int.lt_or_le n 0 with hneg | hpos
  · have hsize : -(n.natAbs : Int) = n := by omega
    simp only [if_pos hneg, List.singleton_append, hread, Option.pure_def, Option.map_some, hsize,
      Option.bind_eq_bind, Option.bind_some, Bool.and_eq_true, decide_eq_true_eq]
  · have hsize : (n.natAbs : Int) = n := by omega
    have hdigits : ∀ c ∈ Nat.toDigits 10 n.natAbs, 48 ≤ c.toNat := fun c hc =>
      (toNat_of_isDigit (Nat.isDigit_of_mem_toDigits (by decide) (by decide) hc)).1
    rw [if_neg (Int.not_lt.mpr hpos), List.nil_append]
    -- The first digit is no sign.
    split
    · next h => exact absurd (hdigits '-' (by simp [h])) (by decide)
    · next h => exact absurd (hdigits '+' (by simp [h])) (by decide)
    · simp only [hread, Option.pure_def, Option.map_some, hsize, Option.bind_eq_bind,
        Option.bind_some, Bool.and_eq_true, decide_eq_true_eq]

end BackupVolume.Text
