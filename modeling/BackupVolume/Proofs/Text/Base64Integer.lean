import BackupVolume.Proofs.Text.Utf8
import BackupVolume.Text.Base64Integer

/-! # Integers in base 64 are read back

The digits of a number have no leading zero digit, and reading them adds up the number again. What
is written of a number of 64 bits is its sign and its size. The size of the least number needs all
64 bits, and reading takes it for the number itself, which is its own negative.
-/
namespace BackupVolume.Text.Base64Integer

theorem digit_mem_alphabet (n : Nat) : digit n ∈ alphabet := by
  rw [digit, List.getD_eq_getElem?_getD]
  rcases h : alphabet[n]? with _ | c
  · decide
  · exact List.mem_of_getElem? h

/-- Digits are single octets, and none is a minus, a blank or a control character. -/
theorem of_mem_alphabet {c : Char} (h : c ∈ alphabet) :
    c.toNat < 128 ∧ 0x20 < c.toUInt8.toNat ∧ c.toUInt8 ≠ 0x2D := by
  have hall : alphabet.all (fun c =>
      decide (c.toNat < 128 ∧ 0x20 < c.toUInt8.toNat ∧ c.toUInt8 ≠ 0x2D)) = true := by
    decide +kernel
  exact of_decide_eq_true (List.all_eq_true.mp hall c h)

theorem digit?_digit {n : Nat} (h : n < 64) : digit? (digit n).toUInt8 = some n := by
  have hall : ∀ i : Fin 64, digit? (digit i).toUInt8 = some i.val := by decide +kernel
  exact hall ⟨n, h⟩

theorem eq_zero_of_digit {n : Nat} (h : n < 64) (hz : digit n = 'A') : n = 0 := by
  have hall : ∀ i : Fin 64, digit i = 'A' → i.val = 0 := by decide +kernel
  exact hall ⟨n, h⟩ hz

theorem mem_alphabet_of_mem_digits {n : Nat} {rest : List Char} (hr : ∀ c ∈ rest, c ∈ alphabet) :
    ∀ c ∈ digits n rest, c ∈ alphabet := by
  fun_induction digits n rest with
  | case1 n rest small => exact List.forall_mem_cons.mpr ⟨digit_mem_alphabet n, hr⟩
  | case2 n rest large ih => exact ih (List.forall_mem_cons.mpr ⟨digit_mem_alphabet _, hr⟩)

/-- The first digit is zero only if the number is. -/
theorem exists_head_digits (n : Nat) (rest : List Char) :
    ∃ d ds, digits n rest = digit d :: ds ∧ d < 64 ∧ (d = 0 → n = 0) := by
  fun_induction digits n rest with
  | case1 n rest small => exact ⟨n, rest, rfl, small, id⟩
  | case2 n rest large ih =>
    obtain ⟨d, ds, hd, hlt, hzero⟩ := ih
    refine ⟨d, ds, hd, hlt, fun h => ?_⟩
    have := hzero h
    omega

/-- Digits are added up to the number that was written. -/
theorem readDigits_digits (n : Nat) (rest : List Char) :
    readDigits 0 ((digits n rest).map Char.toUInt8)
      = readDigits n.toUInt64 (rest.map Char.toUInt8) := by
  fun_induction digits n rest with
  | case1 n rest small =>
    simp only [List.map_cons, readDigits, digit?_digit small]
    simp
  | case2 n rest large ih =>
    have hdigit : digit? (digit (n % 64)).toUInt8 = some (n % 64) :=
      digit?_digit (Nat.mod_lt _ (by decide))
    have hvalue : (n / 64).toUInt64 * 64 + (n % 64).toUInt64 = n.toUInt64 := by
      have hn : n / 64 * 64 + n % 64 = n := by omega
      have h := congrArg UInt64.ofNat hn
      rwa [UInt64.ofNat_add, UInt64.ofNat_mul] at h
    rw [ih, List.map_cons, readDigits, hdigit]
    simp only [hvalue]

theorem readUnsigned_digits (n : Nat) :
    readUnsigned ((digits n []).map Char.toUInt8) = .ok n.toUInt64 := by
  obtain ⟨d, ds, hd, -, -⟩ := exists_head_digits n []
  have hread := readDigits_digits n []
  rw [hd] at hread ⊢
  exact hread

/-- The size of a number, taken for a number of 64 bits, is the number up to its sign. -/
theorem toInt64_natAbs (value : Int64) :
    value.toInt.natAbs.toUInt64.toInt64 = if value < 0 then -value else value := by
  have hsize : value.toInt.natAbs.toUInt64.toInt64 = Int64.ofInt value.toInt.natAbs := by
    rw [Nat.toUInt64, UInt64.toInt64_ofNat', Int64.ofInt_eq_ofNat]
  rw [hsize]
  by_cases h : value < 0
  · have habs : (value.toInt.natAbs : Int) = -value.toInt :=
      Int.ofNat_natAbs_of_nonpos (Int.le_of_lt (Int64.lt_iff_toInt_lt.mp h))
    rw [if_pos h, habs, Int64.ofInt_neg, Int64.ofInt_toInt]
  · have habs : (value.toInt.natAbs : Int) = value.toInt :=
      Int.natAbs_of_nonneg (Int64.le_iff_toInt_le.mp (Int64.not_lt.mp h))
    rw [if_neg h, habs, Int64.ofInt_toInt]

theorem encodeList_eq (value : Int64) :
    encodeList value = (if value < 0 then ['-'] else []) ++ digits value.toInt.natAbs [] := by
  rw [encodeList]
  split <;> rfl

/-- A minus in front of a negative number, and digits which start with zero only for zero. -/
def IsNotation (value : Int64) (cs : List Char) : Prop :=
  ∃ ds, cs = (if value < 0 then ['-'] else []) ++ ds ∧ ds ≠ [] ∧ (∀ c ∈ ds, c ∈ alphabet) ∧
    (ds.head? = some 'A' → value = 0)

theorem isNotation_encodeList (value : Int64) : IsNotation value (encodeList value) := by
  obtain ⟨d, ds, hd, hlt, hzero⟩ := exists_head_digits value.toInt.natAbs []
  refine ⟨digits value.toInt.natAbs [], encodeList_eq value, by simp [hd],
    mem_alphabet_of_mem_digits (by simp), fun hhead => ?_⟩
  rw [hd, List.head?_cons, Option.some.injEq] at hhead
  have hvalue := Int.natAbs_eq_zero.mp (hzero (eq_zero_of_digit hlt hhead))
  exact Int64.toInt_inj.mp hvalue

theorem decode_encodeList (value : Int64) :
    decode ((encodeList value).map Char.toUInt8) = .ok value := by
  have hsize := toInt64_natAbs value
  have hread := readUnsigned_digits value.toInt.natAbs
  rw [encodeList_eq, List.map_append]
  by_cases hneg : value < 0
  · have hminus : ['-'].map Char.toUInt8 = [0x2D] := rfl
    rw [if_pos hneg] at hsize ⊢
    rw [hminus, List.singleton_append, decode, hread, Except.map, hsize, Int64.neg_neg]
  · rw [if_neg hneg] at hsize ⊢
    rw [List.map_nil, List.nil_append, decode, hread, Except.map, hsize]
    intro bs hminus
    obtain ⟨d, ds, hd, -, -⟩ := exists_head_digits value.toInt.natAbs []
    rw [hd, List.map_cons] at hminus
    exact (of_mem_alphabet (digit_mem_alphabet d)).2.2 (List.head_eq_of_cons_eq hminus)

/-- What is written has one octet for each character, and no blanks or control characters. -/
theorem octets_encode (value : Int64) :
    Utf8.encode (encode value) = (encodeList value).map Char.toUInt8 ∧
      ∀ b ∈ Utf8.encode (encode value), 0x20 < b.toNat := by
  have hchars : ∀ c ∈ encodeList value, c.toNat < 128 ∧ 0x20 < c.toUInt8.toNat := by
    obtain ⟨ds, hds, -, hall, -⟩ := isNotation_encodeList value
    intro c hc
    rw [hds] at hc
    rcases List.mem_append.mp hc with hc | hc
    · split at hc
      · rw [List.mem_singleton.mp hc]
        decide
      · simp at hc
    · exact ⟨(of_mem_alphabet (hall c hc)).1, (of_mem_alphabet (hall c hc)).2.1⟩
  have hencode : Utf8.encode (encode value) = (encodeList value).map Char.toUInt8 := by
    rw [encode, Utf8.encode_of_ascii] <;> rw [String.toList_ofList]
    exact fun c hc => (hchars c hc).1
  refine ⟨hencode, fun b hb => ?_⟩
  rw [hencode] at hb
  obtain ⟨c, hc, rfl⟩ := List.mem_map.mp hb
  exact (hchars c hc).2

theorem encode_ne_nil (value : Int64) : Utf8.encode (encode value) ≠ [] := by
  obtain ⟨ds, hds, hne, -⟩ := isNotation_encodeList value
  apply Utf8.encode_ne_nil
  rw [encode, String.toList_ofList, hds]
  exact List.append_ne_nil_of_right_ne_nil _ hne

theorem decode_encode (value : Int64) : decode (Utf8.encode (encode value)) = .ok value := by
  rw [(octets_encode value).1, decode_encodeList]

end BackupVolume.Text.Base64Integer
