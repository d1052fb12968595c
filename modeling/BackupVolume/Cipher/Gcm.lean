import BackupVolume.Cipher.Aes256

/-! # Authenticated encryption

The text is masked by encrypted counters. A tag over the associated data and the masked text,
which only the key can produce, is put behind it; opening computes the tag again and refuses a
text whose tag differs. Opening what was sealed with the same nonce and associated data returns
the text. Texts that are too long for the counter are neither sealed nor opened.
-/
namespace BackupVolume.Cipher.Gcm

open Aes256 (Key Columns encryptBlock)

/-- An element of the field of 2^128 elements; the first bit is the high bit of `high`. -/
structure Element where
  high : UInt64
  low : UInt64
  deriving DecidableEq

namespace Element

def xor (x y : Element) : Element := ⟨x.high ^^^ y.high, x.low ^^^ y.low⟩

def halve (x : Element) : Element :=
  let reduced := if x.low &&& 1 == 1 then x.high >>> 1 ^^^ 0xE100000000000000 else x.high >>> 1
  ⟨reduced, x.low >>> 1 ||| x.high <<< 63⟩

/-- Adds the products of `power` with the next `n` bits of `bits`, its high bit first. -/
def accumulate : (n : Nat) → (bits : UInt64) → (sum power : Element) → Element × Element
  | 0, _, sum, power => (sum, power)
  | n + 1, bits, sum, power =>
    let sum := if bits &&& 0x8000000000000000 == 0 then sum else sum.xor power
    accumulate n (bits <<< 1) sum power.halve

def mul (x y : Element) : Element :=
  let (sum, power) := accumulate 64 x.high ⟨0, 0⟩ y
  (accumulate 64 x.low sum power).1

def ofBytes (bs : Bytes) : Element :=
  let padded := bs ++ List.replicate (16 - bs.length) 0
  ⟨Bytes.toUInt64 (padded.take 8), Bytes.toUInt64 (padded.slice 8 8)⟩

def toBytes (x : Element) : Bytes := Bytes.ofUInt64 x.high ++ Bytes.ofUInt64 x.low

end Element

def xorBytes (a b : Bytes) : Bytes := List.zipWith (· ^^^ ·) a b

def counterBlock (nonce : Bytes) (n : Nat) : Columns :=
  Columns.ofBytes (nonce ++ Bytes.ofUInt32 n.toUInt32)

def keystream (k : Key) (nonce : Bytes) (n : Nat) : Bytes :=
  ((List.range ((n + 15) / 16)).flatMap fun i =>
    (encryptBlock k (counterBlock nonce (i + 2))).toBytes).take n

def mask (k : Key) (nonce text : Bytes) : Bytes := xorBytes text (keystream k nonce text.length)

def absorb (h sum : Element) (bs : Bytes) : Element :=
  (Bytes.chunks 16 bs).foldl (fun sum c => (sum.xor (Element.ofBytes c)).mul h) sum

def tag (k : Key) (nonce associated masked : Bytes) : Bytes :=
  let zero := (encryptBlock k (Columns.ofBytes (List.replicate 16 0))).toBytes
  let h := Element.ofBytes zero
  let sum := absorb h (absorb h ⟨0, 0⟩ associated) masked
  let lengths : Element := ⟨(8 * associated.length).toUInt64, (8 * masked.length).toUInt64⟩
  let sum := (sum.xor lengths).mul h
  xorBytes sum.toBytes (encryptBlock k (counterBlock nonce 1)).toBytes

def tagLength : Nat := 16

/-- The most octets that are sealed at once, and the most that are associated with them: 2^36. -/
def maxLength : Nat := 0x1000000000

def encrypt (k : Key) (nonce associated text : Bytes) : Bytes :=
  let masked := mask k nonce text
  masked ++ tag k nonce associated masked

/-- The masked text with its tag, as long as neither the text nor what goes with it is too long. -/
def encrypt? (k : Key) (nonce associated text : Bytes) : Option Bytes :=
  if maxLength < text.length ∨ maxLength < associated.length then none
  else some (encrypt k nonce associated text)

/-- The text of a sealed one; nothing if its tag is wrong, or if it is too long. -/
def decrypt? (k : Key) (nonce associated sealed : Bytes) : Option Bytes :=
  let masked := sealed.take (sealed.length - tagLength)
  if maxLength + tagLength < masked.length ∨ maxLength < associated.length then none
  else if sealed.drop masked.length == tag k nonce associated masked then
    some (mask k nonce masked)
  else none

theorem length_flatMap_const {α : Type} {f : α → Bytes} {n : Nat} {xs : List α}
    (h : ∀ x, (f x).length = n) : (xs.flatMap f).length = n * xs.length := by
  induction xs with
  | nil => simp
  | cons x xs ih => simp [List.flatMap_cons, h, ih, Nat.mul_add, Nat.add_comm]

@[simp] theorem length_keystream (k : Key) (nonce : Bytes) (n : Nat) :
    (keystream k nonce n).length = n := by
  rw [keystream, List.length_take,
    length_flatMap_const fun i => Columns.length_toBytes _, List.length_range]
  omega

@[simp] theorem length_mask (k : Key) (nonce text : Bytes) :
    (mask k nonce text).length = text.length := by
  simp [mask, xorBytes]

theorem xorBytes_xorBytes {a b : Bytes} (h : a.length ≤ b.length) :
    xorBytes (xorBytes a b) b = a := by
  induction a generalizing b with
  | nil => simp [xorBytes]
  | cons x a ih =>
    cases b with
    | nil => simp at h
    | cons y b =>
      have := ih (b := b) (by simpa using h)
      simp only [xorBytes] at this
      simp only [xorBytes, List.zipWith_cons_cons, this]
      rw [UInt8.xor_assoc, UInt8.xor_self, UInt8.xor_zero]

@[simp] theorem mask_mask (k : Key) (nonce text : Bytes) :
    mask k nonce (mask k nonce text) = text := by
  rw [mask, length_mask]
  exact xorBytes_xorBytes (by simp)

@[simp] theorem length_tag (k : Key) (nonce associated masked : Bytes) :
    (tag k nonce associated masked).length = tagLength := by
  simp [tag, xorBytes, Element.toBytes, tagLength]

@[simp] theorem length_encrypt (k : Key) (nonce associated text : Bytes) :
    (encrypt k nonce associated text).length = text.length + tagLength := by
  simp [encrypt]

theorem encrypt?_eq_none_iff (k : Key) (nonce associated text : Bytes) :
    encrypt? k nonce associated text = none ↔
      maxLength < text.length ∨ maxLength < associated.length := by
  rw [encrypt?]
  split
  · next hlong => exact iff_of_true rfl hlong
  · next hshort => exact iff_of_false (Option.some_ne_none _) hshort

theorem eq_encrypt_of_encrypt? {k : Key} {nonce associated text sealed : Bytes}
    (h : encrypt? k nonce associated text = some sealed) :
    sealed = encrypt k nonce associated text := by
  rw [encrypt?] at h
  split at h
  · cases h
  · exact (Option.some.inj h).symm

/-- Opening returns the text that was sealed. -/
theorem decrypt?_of_encrypt? {k : Key} {nonce associated text sealed : Bytes}
    (h : encrypt? k nonce associated text = some sealed) :
    decrypt? k nonce associated sealed = some text := by
  have hshort : ¬(maxLength < text.length ∨ maxLength < associated.length) := by
    rw [← encrypt?_eq_none_iff k nonce, h]
    exact Option.some_ne_none sealed
  obtain rfl := eq_encrypt_of_encrypt? h
  have hlimit : ¬(maxLength + tagLength < text.length ∨ maxLength < associated.length) := by
    omega
  simp [decrypt?, encrypt, hlimit]

end BackupVolume.Cipher.Gcm
