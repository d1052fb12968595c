import BackupVolume.Text.Utf8

/-! # Octets of texts

The octets of a text are those of its characters, one character after another. An octet below 128
stands for a character by itself and takes no part in any other one, so that a text can be cut at
such octets.
-/
namespace BackupVolume.Text.Utf8

theorem encode_eq_flatMap (s : String) : encode s = s.toList.flatMap String.utf8EncodeChar := by
  conv => lhs; rw [← String.ofList_toList (s := s)]
  rw [encode, String.toByteArray_ofList, List.utf8Encode, Bytes.ofArray]
  simp

theorem encode_append (s t : String) : encode (s ++ t) = encode s ++ encode t := by
  rw [encode_eq_flatMap, String.toList_append, List.flatMap_append, ← encode_eq_flatMap,
    ← encode_eq_flatMap]

theorem utf8EncodeChar_of_ascii {c : Char} (h : c.toNat < 128) :
    String.utf8EncodeChar c = [c.toUInt8] := by
  have hval : c.val.toNat ≤ 127 := Nat.le_of_lt_succ h
  rw [String.utf8EncodeChar, if_pos hval]
  rfl

/-- A character beyond 127 is made of octets beyond 127. -/
theorem le_toNat_of_mem_utf8EncodeChar {c : Char} (h : 128 ≤ c.toNat) {b : UInt8}
    (hb : b ∈ String.utf8EncodeChar c) : 128 ≤ b.toNat := by
  have hval : ¬c.val.toNat ≤ 127 := Nat.not_le_of_lt h
  rw [String.utf8EncodeChar, if_neg hval] at hb
  split at hb
  · simp only [List.mem_cons, List.not_mem_nil, or_false] at hb
    rcases hb with rfl | rfl <;> rw [UInt8.toNat_ofNat'] <;> omega
  · split at hb
    · simp only [List.mem_cons, List.not_mem_nil, or_false] at hb
      rcases hb with rfl | rfl | rfl <;> rw [UInt8.toNat_ofNat'] <;> omega
    · simp only [List.mem_cons, List.not_mem_nil, or_false] at hb
      rcases hb with rfl | rfl | rfl | rfl <;> rw [UInt8.toNat_ofNat'] <;> omega

/-- An octet below 128 is a character of the text. -/
theorem exists_toNat_of_mem_encode {s : String} {b : UInt8} (h : b ∈ encode s)
    (hb : b.toNat < 128) : ∃ c ∈ s.toList, c.toNat = b.toNat := by
  rw [encode_eq_flatMap] at h
  obtain ⟨c, hc, hbc⟩ := List.mem_flatMap.mp h
  refine ⟨c, hc, ?_⟩
  rcases Nat.lt_or_ge c.toNat 128 with hlow | hhigh
  · rw [utf8EncodeChar_of_ascii hlow, List.mem_singleton] at hbc
    have hoctet : c.toUInt8.toNat = c.toNat % 256 := UInt32.toNat_toUInt8 c.val
    rw [hbc, hoctet, Nat.mod_eq_of_lt (by omega)]
  · have := le_toNat_of_mem_utf8EncodeChar hhigh hbc
    omega

theorem encode_ne_nil {s : String} (h : s.toList ≠ []) : encode s ≠ [] := by
  obtain ⟨c, cs, hcs⟩ := List.exists_cons_of_ne_nil h
  rw [encode_eq_flatMap, hcs, List.flatMap_cons]
  exact List.append_ne_nil_of_left_ne_nil String.utf8EncodeChar_ne_nil _

theorem encode_of_ascii {s : String} (h : ∀ c ∈ s.toList, c.toNat < 128) :
    encode s = s.toList.map Char.toUInt8 := by
  rw [encode_eq_flatMap, List.map_eq_flatMap, List.flatMap_def, List.flatMap_def,
    List.map_congr_left fun c hc => utf8EncodeChar_of_ascii (h c hc)]

end BackupVolume.Text.Utf8
