import BackupVolume.Bytes

/-! # Hexadecimal digits

Two lower-case digits an octet, the high half first. Reading takes either case and refuses an odd
number of digits. Numbers are written without leading zeros, or padded to a width.
-/
namespace BackupVolume.Text.Hex

def digits : List Char := "0123456789abcdef".toList

def digit (n : Nat) : Char := digits.getD n '?'

def digit? (c : Char) : Option Nat := digits.findIdx? (· == c.toLower)

def pair (b : UInt8) : List Char := [digit (b.toNat / 16), digit (b.toNat % 16)]

def ofBytes (bs : Bytes) : String := String.ofList (bs.flatMap pair)

def readPairs : List Char → Option Bytes
  | [] => some []
  | [_] => none
  | h :: l :: rest => do
    let high ← digit? h
    let low ← digit? l
    let bs ← readPairs rest
    return UInt8.ofNat (16 * high + low) :: bs

def toBytes? (s : String) : Option Bytes := readPairs s.toList

def ofNat (n : Nat) : String := String.ofList (Nat.toDigits 16 n)

def ofNatPadded (width n : Nat) : String :=
  let ds := Nat.toDigits 16 n
  String.ofList (List.replicate (width - ds.length) '0' ++ ds)

end BackupVolume.Text.Hex
