import BackupVolume.Attributes.Stat
import BackupVolume.Proofs.Text.Base64Integer
import Mathlib.Tactic.IntervalCases

/-! # File status is read back

The words of a status are told apart by the blanks between them, since no integer is written with a
blank. A status whose last fields are missing is read as if they were zero.
-/
namespace BackupVolume

theorem Text.Utf8.encode_intercalate_cons (t : String) {ts : List String} (h : ts ≠ []) :
    encode (String.intercalate " " (t :: ts))
      = encode t ++ 0x20 :: encode (String.intercalate " " ts) := by
  rw [String.intercalate_cons_of_ne_nil h, encode_append, encode_append, List.append_assoc]
  rfl

theorem Text.Utf8.of_mem_encode_intercalate {ts : List String} {b : UInt8}
    (h : b ∈ encode (String.intercalate " " ts)) : b = 0x20 ∨ ∃ t ∈ ts, b ∈ encode t := by
  induction ts with
  | nil => simp [encode, Bytes.ofArray] at h
  | cons t ts ih =>
    by_cases hts : ts = []
    · subst hts
      rw [String.intercalate_singleton] at h
      exact .inr ⟨t, by simp, h⟩
    · rw [encode_intercalate_cons t hts] at h
      rcases List.mem_append.mp h with h | h
      · exact .inr ⟨t, by simp, h⟩
      · rcases List.mem_cons.mp h with h | h
        · exact .inl h
        · rcases ih h with h | ⟨u, hu, hb⟩
          · exact .inl h
          · exact .inr ⟨u, by simp [hu], hb⟩

namespace Stat
open Text
variable {current w : Bytes}

/-- Octets up to the next blank belong to one word. -/
theorem words_append (n : Nat) (hw : ∀ b ∈ w, b ≠ 0x20) (rest : Bytes) :
    words (n + 1) current (w ++ rest) = words (n + 1) (w.reverse ++ current) rest := by
  induction w generalizing current with
  | nil => rfl
  | cons b w ih =>
    have hb : (b == 0x20) = false := by simpa using hw b (by simp)
    rw [List.cons_append, words, if_neg (by simp [hb]), ih fun c hc => hw c (by simp [hc]),
      List.reverse_cons, List.append_assoc, List.singleton_append]

theorem words_blank (n : Nat) (hw : ∀ b ∈ w, b ≠ 0x20) (hne : w ≠ []) (rest : Bytes) :
    words (n + 1) [] (w ++ 0x20 :: rest) = w :: words n [] rest := by
  rw [words_append n hw, words, if_pos (beq_self_eq_true _), if_neg (by simpa using hne),
    List.append_nil, List.reverse_reverse]

theorem words_last (n : Nat) (hw : ∀ b ∈ w, b ≠ 0x20) (hne : w ≠ []) :
    words (n + 1) [] w = [w] := by
  have h : words (n + 1) [] (w ++ []) = words (n + 1) (w.reverse ++ []) [] := words_append n hw []
  rw [List.append_nil] at h
  rw [h, words, if_neg (by simpa using hne), List.append_nil, List.reverse_reverse]

/-- Words with single blanks between them are found again, as many as are asked for. -/
theorem words_intercalate (n : Nat) {ts : List String}
    (ht : ∀ t ∈ ts, Utf8.encode t ≠ [] ∧ ∀ b ∈ Utf8.encode t, b ≠ 0x20) :
    words n [] (Utf8.encode (String.intercalate " " ts))
      = (ts.map Utf8.encode).take n := by
  induction ts generalizing n with
  | nil => cases n <;> rfl
  | cons t ts ih =>
    obtain ⟨hne, hblank⟩ := ht t (by simp)
    cases n with
    | zero => rw [words, List.take_zero]
    | succ n =>
      by_cases hts : ts = []
      · subst hts
        rw [String.intercalate_singleton, words_last n hblank hne]
        simp
      · rw [Utf8.encode_intercalate_cons t hts, words_blank n hblank hne,
          ih n fun u hu => ht u (by simp [hu])]
        rfl

theorem mapM_readField (fs : List Int64) :
    (fs.map fun f => Utf8.encode (Base64Integer.encode f)).mapM readField = .ok fs := by
  induction fs with
  | nil => rfl
  | cons f fs ih =>
    have hf : readField (Utf8.encode (Base64Integer.encode f)) = .ok f := by
      rw [readField, Base64Integer.decode_encode]
    rw [List.map_cons, List.mapM_cons, hf, ih]
    rfl

def encodeFields (fs : List Int64) : String :=
  String.intercalate " " (fs.map Base64Integer.encode)

/-- The text of a status, cut off behind so many of its fields. -/
def encodeFirst (k : Nat) (s : Stat) : String := encodeFields (s.fields.take k)

theorem intercalate_take_prefix (k : Nat) (ts : List String) :
    (String.intercalate " " (ts.take k)).toList <+: (String.intercalate " " ts).toList := by
  by_cases hfirst : ts.take k = []
  · rw [hfirst]
    exact List.nil_prefix
  · by_cases hrest : ts.drop k = []
    · have hall : ts.take k = ts := List.take_of_length_le (List.drop_eq_nil_iff.mp hrest)
      exact ⟨[], by rw [hall, List.append_nil]⟩
    · have hsplit := String.intercalate_append_of_ne_nil (s := " ") hfirst hrest
      rw [List.take_append_drop] at hsplit
      rw [hsplit, String.toList_append, String.toList_append, List.append_assoc]
      exact List.prefix_append ..

theorem isPrefix_encodeFirst (k : Nat) (s : Stat) :
    (s.encodeFirst k).toList <+: s.encode.toList := by
  rw [encodeFirst, encodeFields, List.map_take]
  exact intercalate_take_prefix k _

/-- Fields are read back, up to the number of fields that a status has. -/
theorem decode_encodeFields (fs : List Int64) :
    decode (encodeFields fs) = .ok (ofFields (fs.take fieldCount)) := by
  have hwords : words fieldCount [] (Utf8.encode (encodeFields fs))
      = (fs.take fieldCount).map fun f => Utf8.encode (Base64Integer.encode f) := by
    rw [encodeFields, words_intercalate, List.map_map, ← List.map_take]
    · rfl
    · intro t ht
      obtain ⟨f, -, rfl⟩ := List.mem_map.mp ht
      refine ⟨Base64Integer.encode_ne_nil f, fun b hb hblank => ?_⟩
      have := (Base64Integer.octets_encode f).2 b hb
      rw [hblank] at this
      exact absurd this (by decide)
  rw [decode, hwords, mapM_readField]
  rfl

theorem decode_encode (s : Stat) : decode s.encode = .ok s :=
  (decode_encodeFields s.fields).trans (congrArg Except.ok (ofFields_fields s))

/-- Blanks are the least octets in the text of a status. -/
theorem le_toNat_of_mem_encode {s : Stat} {b : UInt8} (h : b ∈ Utf8.encode s.encode) :
    0x20 ≤ b.toNat := by
  rcases Utf8.of_mem_encode_intercalate h with rfl | ⟨t, ht, hb⟩
  · decide
  · obtain ⟨f, -, rfl⟩ := List.mem_map.mp ht
    exact Nat.le_of_lt ((Base64Integer.octets_encode f).2 b hb)

/-- The first fields of a status make up a status whose other fields are zero. -/
theorem fields_ofFields_take (s : Stat) (k : Nat) :
    (ofFields (s.fields.take k)).fields
      = s.fields.take k ++ List.replicate (fieldCount - k) 0 := by
  rcases Nat.lt_or_ge k fieldCount with hk | hk
  · have hzero : Int64.toUInt64 0 = 0 := rfl
    rw [fieldCount] at hk
    interval_cases k <;> simp [ofFields, fields, fieldCount, hzero]
  · rw [List.take_of_length_le hk, ofFields_fields, Nat.sub_eq_zero_of_le hk]
    exact (List.append_nil _).symm

/-- Integers of 64 bits and whole statuses are read back from what is written of them. An integer is
written without leading zeros, and a status that is cut off between two fields has zeros for those
behind. -/
theorem decode_encodeFirst :
    (∀ v : Int64, Base64Integer.decode (Utf8.encode (Base64Integer.encode v)) = .ok v ∧
      Base64Integer.IsNotation v (Base64Integer.encode v).toList) ∧
    (∀ s : Stat, decode s.encode = .ok s) ∧
    ∀ (s : Stat) (k : Nat), (s.encodeFirst k).toList <+: s.encode.toList ∧
      ∃ t : Stat, decode (s.encodeFirst k) = .ok t ∧
        t.fields = s.fields.take k ++ List.replicate (fieldCount - k) 0 := by
  refine ⟨fun v => ⟨Base64Integer.decode_encode v, ?_⟩, decode_encode, fun s k => ?_⟩
  · rw [Base64Integer.encode, String.toList_ofList]
    exact Base64Integer.isNotation_encodeList v
  · refine ⟨isPrefix_encodeFirst k s, ofFields (s.fields.take k), ?_, fields_ofFields_take s k⟩
    have hlength : (s.fields.take k).length ≤ fieldCount := by
      rw [List.length_take]
      exact Nat.min_le_right ..
    rw [encodeFirst, decode_encodeFields, List.take_of_length_le hlength]

end Stat
end BackupVolume
