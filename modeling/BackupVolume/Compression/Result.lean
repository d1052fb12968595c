import BackupVolume.Bytes

/-! # Decompression into limited room

A decompressor is given compressed octets and the room for the result. It returns the result, or
nothing where the room is too small, or tells why the octets are no compressed data.
-/
namespace BackupVolume.Compression

abbrev Decompressor := Bytes → (room : Nat) → Except String (Option Bytes)

end BackupVolume.Compression
