import BackupVolume.Bytes

/-! # Integers in base 64

The digits are the letters, the decimal digits, plus and slash, most significant first; a minus
stands in front of a negative number. Numbers have 64 bits: reading keeps the low ones.
-/
namespace BackupVolume.Text.Base64Integer

def alphabet : List Char :=
  "ABCDEFGHIJKLMNOPQRSTUVWXYZabcdefghijklmnopqrstuvwxyz0123456789+/".toList

def digit (n : Nat) : Char := alphabet.getD n 'A'

def digit? (b : UInt8) : Option Nat := alphabet.findIdx? fun c => c.toNat == b.toNat

def digits (n : Nat) (rest : List Char) : List Char :=
  if n < 64 then digit n :: rest else digits (n / 64) (digit (n % 64) :: rest)
termination_by n
decreasing_by omega

def encodeList (value : Int64) : List Char :=
  let ds := digits value.toInt.natAbs []
  if value < 0 then '-' :: ds else ds

def encode (value : Int64) : String := String.ofList (encodeList value)

inductive DecodeError where
  | noDigits
  | badDigit (octet : UInt8)
  deriving DecidableEq

def readDigits : (value : UInt64) → Bytes → Except DecodeError UInt64
  | value, [] => .ok value
  | value, b :: bs =>
    match digit? b with
    | some d => readDigits (value * 64 + d.toUInt64) bs
    | none => .error (.badDigit b)

def readUnsigned (bs : Bytes) : Except DecodeError UInt64 :=
  if bs.isEmpty then .error .noDigits else readDigits 0 bs

def decode : Bytes → Except DecodeError Int64
  | 0x2D :: bs => (readUnsigned bs).map fun v => -v.toInt64
  | bs => (readUnsigned bs).map UInt64.toInt64

end BackupVolume.Text.Base64Integer
