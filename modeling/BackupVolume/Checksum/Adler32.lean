import BackupVolume.Bytes

/-! # Adler-32

Two sums modulo 65521: of the octets, starting at one, and of the first sum after each octet.
-/
namespace BackupVolume.Checksum.Adler32

def modulus : UInt32 := 65521

structure Sums where
  octets : UInt32 := 1
  running : UInt32 := 0

def Sums.add (s : Sums) (b : UInt8) : Sums :=
  let octets := (s.octets + b.toUInt32) % modulus
  ⟨octets, (s.running + octets) % modulus⟩

def Sums.value (s : Sums) : UInt32 := s.running <<< 16 ||| s.octets

def checksum (bs : Bytes) : UInt32 := (bs.foldl Sums.add {}).value

end BackupVolume.Checksum.Adler32
