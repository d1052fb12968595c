import BackupVolume.Compression.Scratch

/-! # Containers of compressed payloads

A container is a header of twelve octets and compressed data. The header names the codec by its
magic number, the length of the data, the level of compression and the version of the format.
-/
namespace BackupVolume.Compression

structure Container where
  magic : UInt32
  length : UInt32
  level : UInt16
  version : UInt16
  deriving DecidableEq

namespace Container

def currentVersion : UInt16 := 1

def headerLength : Nat := 12

def toBytes (c : Container) : Bytes :=
  Bytes.ofUInt32 c.magic ++ (Bytes.ofUInt32 c.length
    ++ (Bytes.ofUInt16 c.level ++ Bytes.ofUInt16 c.version))

def ofHeader (bs : Bytes) : Container :=
  ⟨Bytes.toUInt32 (bs.take 4), Bytes.toUInt32 (bs.slice 4 4), Bytes.toUInt16 (bs.slice 8 2),
    Bytes.toUInt16 (bs.slice 10 2)⟩

def parse (payload : Bytes) : Except CodecError (Container × Bytes) :=
  let n := payload.length
  if n < headerLength then .error (.truncatedContainer n)
  else
    let c := ofHeader payload
    let body := payload.drop headerLength
    if c.version ≠ currentVersion then .error (.versionMismatch c.version)
    else if c.length.toNat ≠ n - headerLength then
      .error (.sizeMismatch c.length (n - headerLength))
    else .ok (c, body)

def codec (c : Container) : Except CodecError CodecId :=
  match CodecId.ofMagic? c.magic with
  | some id => .ok id
  | none => .error (.unknownMagic c.magic)

/-- A level as it is stored, between zero and the greatest that fits. -/
def storedLevel (level : Int) : UInt16 := (min (max level 0) 0xFFFF).toNat.toUInt16

def wrapWith (c : Codec) (magic : UInt32) (level : Int) (data : Bytes) : Bytes :=
  let body := c.compress data
  (Container.mk magic body.length.toUInt32 (storedLevel level) currentVersion).toBytes ++ body

def wrap (id : CodecId) (level : Int) (data : Bytes) : Except CodecError Bytes :=
  match id.magic? with
  | some magic => .ok (wrapWith id.codec magic level data)
  | none => .error (.compression (id.name ++ " has no container form"))

end Container

/-- How payloads are decompressed: the codec of streams without a container, and those of
containers. -/
structure Codecs where
  plain : Codec := CodecId.zlib.codec
  wrapped : CodecId → Codec := CodecId.codec

namespace Codecs

def inflate (c : Codecs) (payload : Bytes) (s : Scratch) : Except CodecError Bytes × Scratch :=
  s.fit (c.plain.decompress payload)

def unwrap (c : Codecs) (payload : Bytes) (s : Scratch) : Except CodecError Bytes × Scratch :=
  match Container.parse payload with
  | .error e => (.error e, s)
  | .ok (head, body) =>
    match head.codec with
    | .error e => (.error e, s)
    | .ok id => s.fit ((c.wrapped id).decompress body)

end Codecs
end BackupVolume.Compression
