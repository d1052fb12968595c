import BackupVolume.Bytes

/-! # CRC-32

The cyclic redundancy check with the reflected polynomial `0xEDB88320`: the register starts with
all bits set, takes in one octet after another at its low end, and is complemented at the end.
-/
namespace BackupVolume.Checksum.Crc32

def polynomial : UInt32 := 0xEDB88320

def shift (c : UInt32) : UInt32 := if c &&& 1 == 1 then (c >>> 1) ^^^ polynomial else c >>> 1

def step (c : UInt32) (b : UInt8) : UInt32 :=
  shift (shift (shift (shift (shift (shift (shift (shift (c ^^^ b.toUInt32))))))))

def register (c : UInt32) (bs : Bytes) : UInt32 := bs.foldl step c

def checksum (bs : Bytes) : UInt32 := register 0xFFFFFFFF bs ^^^ 0xFFFFFFFF

/-- The check value of this code: what the digits from one to nine come to. -/
example : checksum [0x31, 0x32, 0x33, 0x34, 0x35, 0x36, 0x37, 0x38, 0x39] = 0xCBF43926 := by
  decide +kernel

@[simp] theorem register_nil (c : UInt32) : register c [] = c := rfl

@[simp] theorem register_append (c : UInt32) (bs cs : Bytes) :
    register c (bs ++ cs) = register (register c bs) cs := List.foldl_append

end BackupVolume.Checksum.Crc32
