import BackupVolume.Bytes

/-! # Bits of compressed data

Bits are numbered from the low bit of the first octet. A field of bits is a number whose low bit
comes first.
-/
namespace BackupVolume.Compression

/-- The bit with the given number; zero behind the end of the data. -/
def bitAt (data : ByteArray) (i : Nat) : Nat :=
  if h : i / 8 < data.size then (data[i / 8].toNat >>> (i % 8)) % 2 else 0

/-- The octet with the given number; zero behind the end of the data. -/
def octetAt (data : ByteArray) (i : Nat) : Nat := if h : i < data.size then data[i].toNat else 0

def gather (data : ByteArray) (i : Nat) : (n : Nat) → Nat
  | 0 => 0
  | n + 1 => octetAt data i ||| gather data (i + 1) n <<< 8

/-- The field of `n` bits from bit `start` on, with zeros behind the end of the data. -/
def field (data : ByteArray) (start n : Nat) : Nat :=
  (gather data (start / 8) ((start % 8 + n + 7) / 8) >>> (start % 8)) % (1 <<< n)

def field? (data : ByteArray) (start n : Nat) : Option Nat :=
  if start + n ≤ 8 * data.size then some (field data start n) else none

/-- The number in `n` octets, the least significant first. -/
def little (data : ByteArray) (i n : Nat) : Nat := gather data i n

/-- Appends `n` octets that repeat what lies `distance` octets before the end. -/
def repeatBack (out : ByteArray) (distance : Nat) : (n : Nat) → ByteArray
  | 0 => out
  | n + 1 => repeatBack (out.push (octetAt out (out.size - distance)).toUInt8) distance n

def appendSlice (out data : ByteArray) (i : Nat) : (n : Nat) → ByteArray
  | 0 => out
  | n + 1 => appendSlice (out.push (octetAt data i).toUInt8) data (i + 1) n

def appendFill (out : ByteArray) (b : UInt8) : (n : Nat) → ByteArray
  | 0 => out
  | n + 1 => appendFill (out.push b) b n

end BackupVolume.Compression
