import BackupVolume.Bytes

/-! # Texts as octets

Texts are stored in UTF-8. Strict decoding refuses octets that are no UTF-8; tolerant decoding
puts the replacement character where the octets break the encoding, one for each longest run that
could have started a character.
-/
namespace BackupVolume.Text.Utf8

def encode (s : String) : Bytes := Bytes.ofArray s.toByteArray

def decode? (bs : Bytes) : Option String := String.fromUTF8? bs.toByteArray

/-- What a first octet announces: how many octets follow, between which bounds the next one lies,
and the bits it contributes. -/
structure Lead where
  following : Nat
  least : UInt8
  greatest : UInt8
  bits : Nat

def lead? (b : UInt8) : Option Lead :=
  if b < 0x80 then some ⟨0, 0x80, 0xBF, b.toNat⟩
  else if b < 0xC2 then none
  else if b < 0xE0 then some ⟨1, 0x80, 0xBF, b.toNat % 32⟩
  else if b == 0xE0 then some ⟨2, 0xA0, 0xBF, 0⟩
  else if b == 0xED then some ⟨2, 0x80, 0x9F, 13⟩
  else if b < 0xF0 then some ⟨2, 0x80, 0xBF, b.toNat % 16⟩
  else if b == 0xF0 then some ⟨3, 0x90, 0xBF, 0⟩
  else if b < 0xF4 then some ⟨3, 0x80, 0xBF, b.toNat % 8⟩
  else if b == 0xF4 then some ⟨3, 0x80, 0x8F, 4⟩
  else none

/-- Reads the octets that follow a first one. The result is the character's number, or nothing
where an octet does not fit, and what is left. -/
def following : (n : Nat) → (least greatest : UInt8) → (bits : Nat) → Bytes → Option Nat × Bytes
  | 0, _, _, bits, bs => (some bits, bs)
  | _ + 1, _, _, _, [] => (none, [])
  | n + 1, least, greatest, bits, b :: bs =>
    if least ≤ b && b ≤ greatest then following n 0x80 0xBF (64 * bits + b.toNat % 64) bs
    else (none, b :: bs)

theorem length_following_le (n : Nat) (least greatest : UInt8) (bits : Nat) (bs : Bytes) :
    (following n least greatest bits bs).2.length ≤ bs.length := by
  induction n generalizing least greatest bits bs with
  | zero => simp [following]
  | succ n ih =>
    cases bs with
    | nil => simp [following]
    | cons b bs =>
      rw [following]
      split
      · exact Nat.le_succ_of_le (ih ..)
      · exact Nat.le_refl _

/-- The character at the head of the octets, or the replacement character, and what is left. -/
def next (b : UInt8) (bs : Bytes) : Char × Bytes :=
  match lead? b with
  | none => ('\uFFFD', bs)
  | some l =>
    match following l.following l.least l.greatest l.bits bs with
    | (some n, rest) => (Char.ofNat n, rest)
    | (none, rest) => ('\uFFFD', rest)

theorem length_next_le (b : UInt8) (bs : Bytes) : (next b bs).2.length ≤ bs.length := by
  rw [next]
  split
  · exact Nat.le_refl _
  · next l _ =>
    have := length_following_le l.following l.least l.greatest l.bits bs
    split <;> simp_all

def scan (acc : List Char) : Bytes → List Char
  | [] => acc.reverse
  | b :: bs => scan ((next b bs).1 :: acc) (next b bs).2
termination_by bs => bs.length
decreasing_by exact Nat.lt_succ_of_le (length_next_le b bs)

/-- Tolerant decoding: strict where possible, else with replacement characters. -/
def decodeLossy (bs : Bytes) : String := (decode? bs).getD (String.ofList (scan [] bs))

@[simp] theorem decode?_encode (s : String) : decode? (encode s) = some s := by
  have bytes : (encode s).toByteArray = s.toByteArray :=
    ByteArray.ext (by simp [encode, Bytes.ofArray])
  rw [decode?, bytes, String.fromUTF8?, dif_pos s.isValidUTF8]
  rfl

@[simp] theorem decodeLossy_encode (s : String) : decodeLossy (encode s) = s := by
  simp [decodeLossy]

end BackupVolume.Text.Utf8
