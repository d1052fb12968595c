import BackupVolume.Attributes.Basic
import BackupVolume.Proofs.Attributes.Stat
import BackupVolume.Proofs.Text.Integer

/-! # Attributes are read back

No part of an attribute record contains the zero octet that ends it, and the two integers in front
of the name contain no blank, so that every part is found again. The sequence number is written as
the unsigned number that it is, but read as a signed one: numbers that need the highest bit are
refused, and all other attributes are read back.
-/
namespace BackupVolume

open Text

theorem Text.Utf8.zero_notMem_encode {s : String} (h : Char.ofNat 0 ∉ s.toList) :
    0 ∉ Utf8.encode s := by
  intro hb
  obtain ⟨c, hc, hzero⟩ := Utf8.exists_toNat_of_mem_encode hb (by decide)
  have hnul : c = Char.ofNat 0 := Char.toNat_inj.mp hzero
  exact h (hnul ▸ hc)

/-- The text of a number contains neither of the octets that end a part of a record. -/
theorem Text.Utf8.notMem_encode_toString (n : Int) {b : UInt8} (hb : b.toNat ≤ 0x20) :
    b ∉ Utf8.encode (toString n) := by
  intro h
  obtain ⟨c, hc, hvalue⟩ := Utf8.exists_toNat_of_mem_encode h (by omega)
  have := of_mem_toString hc
  omega

namespace Attributes

theorem cut_append {b : UInt8} {bs : Bytes} (h : b ∉ bs) (rest : Bytes) :
    cut b (bs ++ b :: rest) = (bs, some rest) := by
  have hpart : ∀ c ∈ bs, (c != b) = true := fun c hc => by
    simpa using fun heq : c = b => h (heq ▸ hc)
  rw [cut, List.takeWhile_append_of_pos hpart, List.dropWhile_append_of_pos hpart]
  simp

theorem cutRest_append {b : UInt8} {bs : Bytes} (h : b ∉ bs) (rest : Bytes) :
    cutRest b (some (bs ++ b :: rest)) = (some bs, some rest) := by
  rw [cutRest, cut_append h]

/-- A number is read back if 32 bits hold it with its sign. -/
theorem readInt32_toString (what : String) (n : Int) :
    readInt32 what (some (Utf8.encode (toString n)))
      = if -2 ^ 31 ≤ n ∧ n ≤ 2 ^ 31 - 1 then .ok (Int32.ofInt n) else .error (.malformed what) := by
  have hleast : Int32.minValue.toInt = -2 ^ 31 := rfl
  have hgreatest : Int32.maxValue.toInt = 2 ^ 31 - 1 := rfl
  rw [readInt32, Option.bind_some, Utf8.decode?_encode, Option.bind_some, trim_toString,
    readInteger_toString, hleast, hgreatest]
  by_cases h : -2 ^ 31 ≤ n ∧ n ≤ 2 ^ 31 - 1
  · rw [if_pos h, if_pos h]
  · rw [if_neg h, if_neg h]

theorem readInt32_int32 (what : String) (n : Int32) :
    readInt32 what (some (Utf8.encode (toString n))) = .ok n := by
  have hle := Int32.le_toInt n
  have hlt := Int32.toInt_lt n
  have hread := readInt32_toString what n.toInt
  rwa [if_pos (by omega), Int32.ofInt_toInt] at hread

/-- The sequence number is read as a signed one. -/
theorem readSequence_toString (n : UInt32) :
    readSequence (some (Utf8.encode (toString n)))
      = if n.toNat < 2 ^ 31 then .ok n else .error (.malformed "delta sequence") := by
  have htext : toString n = toString (n.toNat : Int) := rfl
  have hread := readInt32_toString "delta sequence" n.toNat
  have hne : Utf8.encode (toString (n.toNat : Int)) ≠ [] := Utf8.encode_ne_nil (by
    rw [toList_toString]
    exact List.append_ne_nil_of_right_ne_nil _ Nat.toDigits_ne_nil)
  rw [htext, readSequence.eq_3 _ (by exact hne), hread]
  by_cases h : n.toNat < 2 ^ 31
  · rw [if_pos h, if_pos (by omega), Except.map, Int32.ofInt_eq_ofNat]
    simp
  · rw [if_neg h, if_neg (by omega), Except.map]

/-- No text of the attributes contains the character zero, which ends texts in a record. -/
def IsPlain (a : Attributes) : Prop := ∀ s ∈ [a.name, a.link, a.extended], Char.ofNat 0 ∉ s.toList

instance (a : Attributes) : Decidable a.IsPlain := inferInstanceAs (Decidable (∀ s ∈ _, _))

/-- The parts of a record, each with the zero octet that ends it. -/
theorem encode_eq (a : Attributes) :
    a.encode = (Utf8.encode (toString a.fileIndex) ++ 0x20 ::
        (Utf8.encode (toString a.typeCode) ++ 0x20 :: Utf8.encode a.name)) ++ 0 ::
      (Utf8.encode a.stat.encode ++ 0 :: (Utf8.encode a.link ++ 0 ::
        (Utf8.encode a.extended ++ 0 :: (Utf8.encode (toString a.deltaSequence) ++ [0])))) := by
  have hblank : Utf8.encode " " = [0x20] := rfl
  simp only [encode, Utf8.encode_append, hblank, List.append_assoc, List.cons_append,
    List.nil_append]

/-- All but the sequence number is read back. -/
theorem decode_encode_eq {a : Attributes} (h : a.IsPlain) :
    decode a.encode = (readSequence (some (Utf8.encode (toString a.deltaSequence)))).map
      fun deltaSequence => { a with deltaSequence } := by
  have hname := Utf8.zero_notMem_encode (h a.name (by simp))
  have hlink := Utf8.zero_notMem_encode (h a.link (by simp))
  have hextended := Utf8.zero_notMem_encode (h a.extended (by simp))
  have hindex : ∀ b : UInt8, b.toNat ≤ 0x20 → b ∉ Utf8.encode (toString a.fileIndex) :=
    fun b hb => Utf8.notMem_encode_toString a.fileIndex.toInt hb
  have hcode : ∀ b : UInt8, b.toNat ≤ 0x20 → b ∉ Utf8.encode (toString a.typeCode) :=
    fun b hb => Utf8.notMem_encode_toString a.typeCode.toInt hb
  have hsequence : 0 ∉ Utf8.encode (toString a.deltaSequence) :=
    Utf8.notMem_encode_toString (a.deltaSequence.toNat : Int) (by decide)
  have hstat : 0 ∉ Utf8.encode a.stat.encode := fun hb =>
    absurd (Stat.le_toNat_of_mem_encode hb) (by decide)
  have hhead : 0 ∉ Utf8.encode (toString a.fileIndex) ++ 0x20 ::
      (Utf8.encode (toString a.typeCode) ++ 0x20 :: Utf8.encode a.name) := by
    have hi := hindex 0 (by decide)
    have hc := hcode 0 (by decide)
    simp [hi, hc, hname]
  rw [encode_eq, decode, cut_append hhead]
  simp only [cut_append (hindex 0x20 (by decide)), readInt32_int32,
    cutRest_append (hcode 0x20 (by decide)), cutRest_append hstat, cutRest_append hlink,
    cutRest_append hextended, cutRest_append hsequence, required, Utf8.decodeLossy_encode,
    Option.getD_some, Stat.decode_encode, bind, Except.bind, pure, Except.pure]
  cases readSequence (some (Utf8.encode (toString a.deltaSequence))) with
  | error e => simp only [Except.map]
  | ok n => simp only [Except.map]

/-- Attributes are read back from their record, if the sequence number leaves the highest bit free;
otherwise the record is refused. -/
theorem decode_encode_of_isPlain {a : Attributes} (h : a.IsPlain) :
    decode a.encode
      = if a.deltaSequence.toNat < 2 ^ 31 then .ok a else .error (.malformed "delta sequence") := by
  rw [decode_encode_eq h, readSequence_toString]
  by_cases hlow : a.deltaSequence.toNat < 2 ^ 31
  · rw [if_pos hlow, if_pos hlow, Except.map]
  · rw [if_neg hlow, if_neg hlow, Except.map]

theorem decode_encode_spaced :
    let a : Attributes :=
      ⟨-2147483648, 3, " two  words", { mode := 0o100644, size := -5 }, "", "a b ", 2147483647⟩
    a.IsPlain ∧ decode a.encode = .ok a := by
  intro a
  have hplain : a.IsPlain := by decide
  refine ⟨hplain, ?_⟩
  have hread := decode_encode_of_isPlain hplain
  rwa [if_pos (by decide)] at hread

/-- A sequence number with the highest bit makes a record that is refused. -/
theorem refuses_high_sequence :
    let a : Attributes := ⟨1, 3, "/a", {}, "", "", 2147483648⟩
    a.IsPlain ∧ decode a.encode = .error (.malformed "delta sequence") := by
  intro a
  have hplain : a.IsPlain := by decide
  refine ⟨hplain, ?_⟩
  rw [decode_encode_eq hplain, readSequence_toString, if_neg (by decide), Except.map]

end Attributes
end BackupVolume
