import BackupVolume.Compression.Lzo1x
import BackupVolume.Compression.Zlib
import BackupVolume.Compression.Zstandard.Frame
import BackupVolume.Text.Hex

/-! # Codecs of payloads

A payload is compressed in one of three ways. A codec is known by its name; two of them also have a
magic number, under which their results are wrapped in a container.
-/
namespace BackupVolume.Compression

inductive CodecId where
  | zlib
  | lzo1x
  | zstd
  deriving DecidableEq

namespace CodecId

def all : List CodecId := [zlib, lzo1x, zstd]

def name : CodecId → String
  | zlib => "zlib"
  | lzo1x => "lzo1x"
  | zstd => "zstd"

/-- The names under which a codec is looked up, in either case. -/
def aliases : CodecId → List String
  | zlib => ["zlib", "gzip"]
  | lzo1x => ["lzo", "lzo1x"]
  | zstd => ["zstd"]

def ofName? (s : String) : Option CodecId := all.find? fun c => c.aliases.contains s.toLower

def magic? : CodecId → Option UInt32
  | zlib => none
  | lzo1x => some 0x4C5A4F58
  | zstd => some 0x5A535444

def ofMagic? (m : UInt32) : Option CodecId := all.find? fun c => c.magic? == some m

theorem ofMagic?_of_magic? {c : CodecId} {m : UInt32} (h : c.magic? = some m) :
    ofMagic? m = some c := by
  cases c <;> simp only [magic?, Option.some.injEq, reduceCtorEq] at h <;> subst h <;> rfl

end CodecId

inductive CodecError where
  | compression (message : String)
  | decompression (message : String)
  | truncatedContainer (length : Nat)
  | versionMismatch (found : UInt16)
  | sizeMismatch (declared : UInt32) (actual : Nat)
  | unknownMagic (magic : UInt32)
  | bufferExhausted (cap : Nat)
  deriving DecidableEq

def CodecError.message : CodecError → String
  | .compression m => "Compression error: " ++ m
  | .decompression m => "Decompression error: " ++ m
  | .truncatedContainer n => "Compression container too short: " ++ toString n ++ " bytes"
  | .versionMismatch found =>
    "Compression container version " ++ toString found ++ " (expected 1)"
  | .sizeMismatch declared actual =>
    "Compression container declares " ++ toString declared ++ " bytes but " ++ toString actual
      ++ " follow the header"
  | .unknownMagic m =>
    "Unknown compression container magic 0x" ++ Text.Hex.ofNatPadded 8 m.toNat
  | .bufferExhausted cap =>
    "Decompression needs more than " ++ toString cap ++ " bytes of buffer"

structure Codec where
  compress : Bytes → Bytes
  decompress : Bytes → (room : Nat) → Except CodecError (Option Bytes)

def Decompressor.lift (d : Decompressor) (bs : Bytes) (room : Nat) :
    Except CodecError (Option Bytes) :=
  match d bs room with
  | .ok r => .ok r
  | .error m => .error (.decompression m)

def CodecId.codec : CodecId → Codec
  | zlib => ⟨Zlib.compress, Decompressor.lift Zlib.decompress⟩
  | lzo1x => ⟨Lzo1x.compress, Decompressor.lift Lzo1x.decompress⟩
  | zstd => ⟨Zstandard.compress, Decompressor.lift Zstandard.decompress⟩

end BackupVolume.Compression
