import BackupVolume.Block.Layout
import BackupVolume.Record.Basic

/-! # Pieces of records

A record lies in the record area of a block as a header and payload octets. A record that does not
fit is cut into pieces, each with a header that tells how many payload octets are outstanding as of
that piece. Later pieces carry the continuation tag. In the first layout a piece names its session;
in the others it belongs to the session of the block.
-/
namespace BackupVolume

structure PieceHeader where
  fileIndex : Int32
  tag : StreamTag
  /-- The payload octets of this piece and of those that follow. -/
  outstanding : UInt32
  session : Session
  deriving DecidableEq

namespace PieceHeader

def toBytes (layout : HeaderLayout) (h : PieceHeader) : Bytes :=
  let fields := Bytes.ofInt32 h.fileIndex
    ++ (Bytes.ofInt32 h.tag.raw ++ Bytes.ofUInt32 h.outstanding)
  match layout with
  | .bb01 => Bytes.ofUInt32 h.session.id ++ (Bytes.ofUInt32 h.session.time ++ fields)
  | .bb02 | .bb03 => fields

def ofBytes (layout : HeaderLayout) (session : Session) (raw : Bytes) : PieceHeader :=
  let fields (s : Session) (raw : Bytes) : PieceHeader :=
    ⟨Bytes.toInt32 (raw.take 4), ⟨Bytes.toInt32 (raw.slice 4 4)⟩, Bytes.toUInt32 (raw.slice 8 4), s⟩
  match layout with
  | .bb01 => fields ⟨Bytes.toUInt32 (raw.take 4), Bytes.toUInt32 (raw.slice 4 4)⟩ (raw.drop 8)
  | .bb02 | .bb03 => fields session raw

@[simp] theorem length_toBytes (layout : HeaderLayout) (h : PieceHeader) :
    (h.toBytes layout).length = layout.recordHeaderLength := by
  cases layout <;> simp [toBytes, HeaderLayout.recordHeaderLength]

end PieceHeader

structure Outstanding where
  fileIndex : Int32
  tag : StreamTag
  started : Bool
  rest : Bytes
  deriving DecidableEq

namespace Outstanding

def whole (r : Record) : Outstanding := ⟨r.fileIndex, r.tag, false, r.payload⟩

/-- The last `remainder` octets of a record are left; zero, or more than the record has, means
that nothing has been stored. -/
def lastOctets (r : Record) (remainder : Nat) : Outstanding :=
  let stored := if remainder = 0 then 0 else r.payload.length - remainder
  ⟨r.fileIndex, r.tag, stored != 0, r.payload.drop stored⟩

def isComplete (o : Outstanding) : Bool := o.rest.isEmpty

/-- The number of octets left once a piece has been stored, and zero before. -/
def remainder (o : Outstanding) : Nat := if o.started then o.rest.length else 0

def pieceTag (o : Outstanding) : StreamTag := if o.started then o.tag.continuation else o.tag

def header (o : Outstanding) (session : Session) : PieceHeader :=
  ⟨o.fileIndex, o.pieceTag, o.rest.length.toUInt32, session⟩

end Outstanding
end BackupVolume
