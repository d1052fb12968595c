import BackupVolume.Checksum.Adler32
import BackupVolume.Compression.Deflate
import BackupVolume.Compression.Result

/-! # Zlib streams

Two octets of header, deflated data and a checksum of the result. Octets behind the checksum are
ignored.
-/
namespace BackupVolume.Compression.Zlib

/-- The header names the method and a window of at most 32768 octets, asks for no preset
dictionary, and is a multiple of 31. -/
def isHeader (method flags : Nat) : Bool :=
  (256 * method + flags) % 31 == 0 && flags &&& 0x20 == 0 && method % 16 == 8 && method / 16 ≤ 7

def failed : String := "deflate decompression error"

/-- What is told when the data end early: the room may just have been filled. -/
def ended (out : ByteArray) (room : Nat) : Except String (Option Bytes) :=
  if room ≤ out.size then .ok none else .error "truncated zlib stream"

def decompress : Decompressor := fun bs room =>
  let data := bs.toByteArray
  if data.size < 2 then ended ByteArray.empty room
  else if !isHeader (octetAt data 0) (octetAt data 1) then .error failed
  else
    match Deflate.decode data room 2 with
    | (_, .error .invalid) => .error failed
    | (out, .error .endOfData) | (out, .error .outputFull) => ended out room
    | (out, .ok next) =>
      let i := (next + 7) / 8
      if data.size < i + 4 then ended out room
      else
        let result := Bytes.ofArray out
        if Bytes.toUInt32 (Bytes.ofArray (data.extract i (i + 4)))
            == Checksum.Adler32.checksum result then .ok (some result)
        else .error failed

def compress (bs : Bytes) : Bytes :=
  0x78 :: 0x01 :: (Deflate.encode bs ++ Bytes.ofUInt32 (Checksum.Adler32.checksum bs))

end BackupVolume.Compression.Zlib
