import BackupVolume.Attributes.Stat
import BackupVolume.Record.Basic
import BackupVolume.Text.Blank
import BackupVolume.Text.Integer

/-! # File attributes

An attribute record starts with the file index, the type and the name of a file, one blank between
them. The status, the target of a link, further attributes and a sequence number follow, each ended
by a zero octet.
-/
namespace BackupVolume

inductive FileType where
  | linkSaved
  | regularEmpty
  | regular
  | symbolicLink
  | directory
  | deleted
  | other
  deriving DecidableEq

def FileType.ofCode (code : Int32) : FileType :=
  if code = 1 then linkSaved
  else if code = 2 then regularEmpty
  else if code = 3 then regular
  else if code = 4 then symbolicLink
  else if code = 5 then directory
  else if code = 23 then deleted
  else other

structure Attributes where
  fileIndex : Int32
  typeCode : Int32
  name : String
  stat : Stat
  link : String
  extended : String
  deltaSequence : UInt32
  deriving DecidableEq

namespace Attributes

def type (a : Attributes) : FileType := .ofCode a.typeCode

def isRegular (a : Attributes) : Bool := a.type == .regular || a.type == .regularEmpty

def encode (a : Attributes) : Bytes :=
  let part (s : String) : Bytes := Text.Utf8.encode s ++ [0]
  part (toString a.fileIndex ++ " " ++ toString a.typeCode ++ " " ++ a.name)
    ++ (part a.stat.encode ++ (part a.link
      ++ (part a.extended ++ part (toString a.deltaSequence))))

/-- What stands before the first `b`, and what stands behind it if there is one. -/
def cut (b : UInt8) (bs : Bytes) : Bytes × Option Bytes :=
  (bs.takeWhile (· != b),
    match bs.dropWhile (· != b) with
    | [] => none
    | _ :: rest => some rest)

def cutRest (b : UInt8) : Option Bytes → Option Bytes × Option Bytes
  | none => (none, none)
  | some bs =>
    let (part, rest) := cut b bs
    (some part, rest)

def readInt32 (what : String) (part : Option Bytes) : Except AttributeError Int32 :=
  match part.bind Text.Utf8.decode? |>.bind fun s =>
      Text.readInteger Int32.minValue.toInt Int32.maxValue.toInt (Text.trim s) with
  | some n => .ok (Int32.ofInt n)
  | none => .error (.malformed what)

def required (what : String) : Option Bytes → Except AttributeError Bytes
  | some bs => .ok bs
  | none => .error (.malformed what)

def readSequence : Option Bytes → Except AttributeError UInt32
  | none | some [] => .ok 0
  | some bs => (readInt32 "delta sequence" (some bs)).map Int32.toUInt32

def decode (data : Bytes) : Except AttributeError Attributes := do
  let (head, rest) := cut 0 data
  let (index, rest₁) := cut 0x20 head
  let fileIndex ← readInt32 "file index" (some index)
  let (code, name) := cutRest 0x20 rest₁
  let typeCode ← readInt32 "file type" code
  let name ← required "missing file name" name
  let (stat, rest) := cutRest 0 rest
  let stat ← required "missing stat block" stat
  let (link, rest) := cutRest 0 rest
  let (extended, rest) := cutRest 0 rest
  let (sequence, _) := cutRest 0 rest
  let deltaSequence ← readSequence sequence
  let stat ← Stat.decode (Text.Utf8.decodeLossy stat)
  return { fileIndex, typeCode, name := Text.Utf8.decodeLossy name, stat,
           link := Text.Utf8.decodeLossy (link.getD [])
           extended := Text.Utf8.decodeLossy (extended.getD [])
           deltaSequence }

/-- The attributes in a record, whose file index must be the one of the record. -/
def ofRecord (r : Record) : Except AttributeError Attributes := do
  let a ← decode r.payload
  if a.fileIndex = r.fileIndex then return a
  else .error (.fileIndexMismatch r.fileIndex a.fileIndex)

end Attributes
end BackupVolume
