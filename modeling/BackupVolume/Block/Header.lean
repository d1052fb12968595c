import BackupVolume.Block.Layout
import BackupVolume.Checksum.Crc32
import BackupVolume.Checksum.XxHash64
import BackupVolume.Session
import BackupVolume.Text.Hex

/-! # Block headers

Writing a block puts the header in front of the payload and fills in the length and the checksum.
Reading a block finds the layout, checks the options, the length and the checksum, and returns the
header with the payload; octets behind the declared length are padding.
-/
namespace BackupVolume

inductive HeaderError where
  | truncated (available : Nat)
  | unknownTag (tag : Bytes)
  | unknownOptions (bits : UInt32)
  | badLength (declared : UInt32) (headerLength available : Nat)
  | checksumMismatch (number : UInt32) (stored computed : UInt64)
  deriving DecidableEq

def HeaderError.message : HeaderError → String
  | .truncated n => "block too short for a header: " ++ toString n ++ " bytes"
  | .unknownTag t => "unrecognized block format tag " ++ Text.Hex.ofBytes t
  | .unknownOptions w => "unknown block option bits 0x" ++ Text.Hex.ofNat w.toNat
  | .badLength declared header available =>
    "block length " ++ toString declared ++ " invalid (header " ++ toString header ++ " B, "
      ++ toString available ++ " B available)"
  | .checksumMismatch number stored computed =>
    "checksum mismatch on block " ++ toString number ++ ": stored 0x"
      ++ Text.Hex.ofNat stored.toNat ++ ", computed 0x" ++ Text.Hex.ofNat computed.toNat

structure BlockHeader where
  layout : HeaderLayout
  /-- In the first two layouts always the checksum option alone. -/
  options : BlockOptions
  length : UInt32
  number : UInt32
  /-- Blocks of the first layout have none. -/
  session : Session
  checksum : UInt64
  deriving DecidableEq

namespace BlockHeader

def headerLength (h : BlockHeader) : Nat := h.layout.headerLength h.options

def isChecksummed (h : BlockHeader) : Bool := h.layout.isChecksummed h.options

/-- The checksum of a whole block. It leaves out the place where it is stored. -/
def checksumOf (layout : HeaderLayout) (block : Bytes) : UInt64 :=
  match layout with
  | .bb01 | .bb02 => (Checksum.Crc32.checksum (block.drop 4)).toUInt64
  | .bb03 => Checksum.XxHash64.hash 0 (block.take 24 ++ (List.replicate 8 0 ++ block.drop 32))

def fixedFields (h : BlockHeader) : Bytes :=
  Bytes.ofUInt32 h.length ++ (Bytes.ofUInt32 h.number ++ (h.layout.tag
    ++ (if h.layout.hasSession then Bytes.ofUInt32 h.session.id ++ Bytes.ofUInt32 h.session.time
      else [])))

def unchecked (h : BlockHeader) : Bytes :=
  Bytes.ofUInt32 (if h.layout.alwaysChecksummed then 0 else h.options.bits) ++ (h.fixedFields
    ++ List.replicate (h.headerLength - h.layout.fixedLength) 0)

def toBytes (h : BlockHeader) : Bytes :=
  if h.layout.alwaysChecksummed then Bytes.ofUInt32 h.checksum.toUInt32 ++ h.fixedFields
  else Bytes.ofUInt32 h.options.bits ++ (h.fixedFields
    ++ (if h.isChecksummed then Bytes.ofUInt64 h.checksum else []))

def complete (h : BlockHeader) (payload : Bytes) : BlockHeader :=
  let options := if h.layout.alwaysChecksummed then .checksum else h.options
  let session := if h.layout.hasSession then h.session else {}
  let length := (h.layout.headerLength options + payload.length).toUInt32
  let h := { h with options, session, length, checksum := 0 }
  if h.isChecksummed then { h with checksum := checksumOf h.layout (h.unchecked ++ payload) }
  else h

def encode (h : BlockHeader) (payload : Bytes) : BlockHeader × Bytes :=
  let h := h.complete payload
  (h, h.toBytes ++ payload)

def readOptions (layout : HeaderLayout) (lead : UInt32) : Except HeaderError BlockOptions :=
  if layout.alwaysChecksummed then .ok .checksum
  else match BlockOptions.ofBits? lead with
    | some o => .ok o
    | none => .error (.unknownOptions lead)

/-- Reads the header fields, without looking at the length or the checksum. -/
def readFields (raw : Bytes) : Except HeaderError BlockHeader := do
  let tag := raw.slice 12 4
  match HeaderLayout.ofTag? tag with
  | none => .error (.unknownTag tag)
  | some layout =>
    let lead := Bytes.toUInt32 (raw.take 4)
    let options ← readOptions layout lead
    let session : Session :=
      if layout.hasSession then
        ⟨Bytes.toUInt32 (raw.slice 16 4), Bytes.toUInt32 (raw.slice 20 4)⟩
      else {}
    let checksum :=
      if layout.alwaysChecksummed then lead.toUInt64
      else if options.contains .checksum then Bytes.toUInt64 (raw.slice 24 8)
      else 0
    return ⟨layout, options, Bytes.toUInt32 (raw.slice 4 4), Bytes.toUInt32 (raw.slice 8 4),
      session, checksum⟩

/-- The declared length covers the header, keeps the general bound and is there to be read. -/
def lengthFits (h : BlockHeader) (available : Nat) : Bool :=
  h.headerLength ≤ h.length.toNat && h.length.toNat ≤ maxBlockLength
    && h.length.toNat ≤ available

/-- Reads a block: its header and its payload. The checksum is compared where `verify` asks. -/
def decode (verify : Bool) (raw : Bytes) : Except HeaderError (BlockHeader × Bytes) := do
  let available := raw.length
  if available < minHeaderLength then .error (.truncated available)
  else
    let h ← readFields raw
    if !h.lengthFits available then .error (.badLength h.length h.headerLength available)
    else
      let block := raw.take h.length.toNat
      if verify && h.isChecksummed then
        let computed := checksumOf h.layout block
        if computed == h.checksum then return (h, block.drop h.headerLength)
        else .error (.checksumMismatch h.number h.checksum computed)
      else return (h, block.drop h.headerLength)

end BlockHeader
end BackupVolume
