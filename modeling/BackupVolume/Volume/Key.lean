import BackupVolume.Cipher.Gcm
import BackupVolume.KeyDerivation.Argon2id
import BackupVolume.Session
import BackupVolume.Text.Utf8

/-! # Keys of volumes

A key seals the record area of a block: a nonce, the encrypted area and a tag. The number and the
session of the block are associated data, so that a sealed area opens only in its own block. Keys
are derived from passphrases with one salt for all volumes.
-/
namespace BackupVolume

inductive CryptoError where
  | encryptionFailed
  | decryptionFailed
  | keyDerivation (e : KeyDerivation.Argon2id.KeyDerivationError)
  | tooShort
  | missingKey
  deriving DecidableEq

def CryptoError.message : CryptoError → String
  | .encryptionFailed => "Encryption failed"
  | .decryptionFailed => "Decryption failed (wrong passphrase or corrupted block)"
  | .keyDerivation e => "Key derivation failed: " ++ e.message
  | .tooShort => "Encrypted payload too short (minimum 28 bytes)"
  | .missingKey => "Block is encrypted but no decryption key was provided"

/-- A number used once with a key; only its low 96 bits are stored. -/
structure Nonce where
  value : Nat

namespace Nonce

def length : Nat := 12

def toBytes (n : Nonce) : Bytes := Bytes.ofNat length n.value

def next (n : Nonce) : Nonce := ⟨n.value + 1⟩

end Nonce

structure VolumeKey where
  bytes : Bytes
  length_bytes : bytes.length = KeyDerivation.Argon2id.keyLength
  deriving DecidableEq

namespace VolumeKey

def salt : Bytes := Text.Utf8.encode "volstream-blk-v1"

def overhead : Nat := Nonce.length + Cipher.Gcm.tagLength

/-- What binds a sealed record area to its block. -/
def associatedData (number : UInt32) (s : Session) : Bytes :=
  Bytes.ofUInt32 number ++ (Bytes.ofUInt32 s.id ++ Bytes.ofUInt32 s.time)

@[simp] theorem length_associatedData (number : UInt32) (s : Session) :
    (associatedData number s).length = 12 := by
  simp [associatedData]

def derive (passphrase : String) (salt : Bytes) : Except CryptoError VolumeKey :=
  match derived : KeyDerivation.Argon2id.deriveKey (Text.Utf8.encode passphrase) salt with
  | .ok bytes => .ok ⟨bytes, KeyDerivation.Argon2id.length_deriveKey derived⟩
  | .error e => .error (.keyDerivation e)

def ofPassphrase (passphrase : String) : Except CryptoError VolumeKey := derive passphrase salt

/-- The nonce and the sealed area behind it, unless there is more than the cipher takes at once. -/
def encrypt (k : VolumeKey) (n : Nonce) (associated plain : Bytes) : Except CryptoError Bytes :=
  match Cipher.Gcm.encrypt? (.ofBytes k.bytes) n.toBytes associated plain with
  | some sealed => .ok (n.toBytes ++ sealed)
  | none => .error .encryptionFailed

def decrypt (k : VolumeKey) (associated sealed : Bytes) : Except CryptoError Bytes :=
  if sealed.length < overhead then .error .tooShort
  else match Cipher.Gcm.decrypt? (.ofBytes k.bytes) (sealed.take Nonce.length) associated
      (sealed.drop Nonce.length) with
    | some plain => .ok plain
    | none => .error .decryptionFailed

variable {k : VolumeKey} {n : Nonce} {associated plain sealed : Bytes}

/-- Sealing fails only where there is more than the cipher takes at once. -/
theorem encrypt_error_iff {e : CryptoError} :
    k.encrypt n associated plain = .error e ↔ e = .encryptionFailed ∧
      (Cipher.Gcm.maxLength < plain.length ∨ Cipher.Gcm.maxLength < associated.length) := by
  rw [← Cipher.Gcm.encrypt?_eq_none_iff (.ofBytes k.bytes) n.toBytes, encrypt]
  cases Cipher.Gcm.encrypt? (.ofBytes k.bytes) n.toBytes associated plain with
  | none => simp [eq_comm]
  | some masked => simp

theorem exists_of_encrypt (h : k.encrypt n associated plain = .ok sealed) :
    ∃ masked, Cipher.Gcm.encrypt? (.ofBytes k.bytes) n.toBytes associated plain = some masked ∧
      sealed = n.toBytes ++ masked := by
  rw [encrypt] at h
  split at h
  · next masked hmasked =>
    cases h
    exact ⟨masked, hmasked, rfl⟩
  · cases h

theorem length_encrypt (h : k.encrypt n associated plain = .ok sealed) :
    sealed.length = plain.length + overhead := by
  obtain ⟨masked, hmasked, rfl⟩ := exists_of_encrypt h
  obtain rfl := Cipher.Gcm.eq_encrypt_of_encrypt? hmasked
  simp [Nonce.toBytes, overhead]
  omega

/-- What was sealed opens under the same key and associated data. -/
theorem decrypt_of_encrypt (h : k.encrypt n associated plain = .ok sealed) :
    k.decrypt associated sealed = .ok plain := by
  have hlength := length_encrypt h
  obtain ⟨masked, hmasked, rfl⟩ := exists_of_encrypt h
  have hnonce : (n.toBytes ++ masked).take Nonce.length = n.toBytes :=
    List.take_left' (by simp [Nonce.toBytes])
  have hrest : (n.toBytes ++ masked).drop Nonce.length = masked :=
    List.drop_left' (by simp [Nonce.toBytes])
  rw [decrypt, if_neg (by omega), hnonce, hrest, Cipher.Gcm.decrypt?_of_encrypt? hmasked]

/-- Opening fails otherwise than sealing. -/
theorem ne_of_decrypt {e : CryptoError} (h : k.decrypt associated sealed = .error e) :
    e ≠ .encryptionFailed := by
  rw [decrypt] at h
  repeat' split at h
  all_goals
    cases h
    try exact nofun

end VolumeKey
end BackupVolume
