import BackupVolume.Text.Base64Integer
import BackupVolume.Text.Quoted
import BackupVolume.Text.Utf8

/-! # File status

The status of a file is stored as sixteen base-64 integers between blanks. Fields that are missing
at the end are zero.
-/
namespace BackupVolume

inductive AttributeError where
  | malformed (what : String)
  | badDigit (digit : Char)
  | fileIndexMismatch (record attributes : Int32)
  deriving DecidableEq

def AttributeError.message : AttributeError → String
  | .malformed what => "malformed attribute record: " ++ what
  | .badDigit c => "invalid base64 digit " ++ Text.Quoted.char c
  | .fileIndexMismatch record attributes =>
    "record header file index " ++ toString record ++ " != attribute file index "
      ++ toString attributes

structure Stat where
  dev : UInt64 := 0
  ino : UInt64 := 0
  mode : UInt32 := 0
  nlink : UInt64 := 0
  uid : UInt32 := 0
  gid : UInt32 := 0
  rdev : UInt64 := 0
  size : Int64 := 0
  blksize : Int64 := 0
  blocks : Int64 := 0
  atime : Int64 := 0
  mtime : Int64 := 0
  ctime : Int64 := 0
  linkIndex : Int32 := 0
  flags : UInt32 := 0
  dataStream : Int32 := 0
  deriving DecidableEq

namespace Stat

def fields (s : Stat) : List Int64 :=
  [s.dev.toInt64, s.ino.toInt64, s.mode.toUInt64.toInt64, s.nlink.toInt64, s.uid.toUInt64.toInt64,
    s.gid.toUInt64.toInt64, s.rdev.toInt64, s.size, s.blksize, s.blocks, s.atime, s.mtime, s.ctime,
    s.linkIndex.toInt64, s.flags.toUInt64.toInt64, s.dataStream.toInt64]

def ofFields (fs : List Int64) : Stat :=
  let f (i : Nat) : Int64 := fs.getD i 0
  { dev := (f 0).toUInt64
    ino := (f 1).toUInt64
    mode := (f 2).toUInt64.toUInt32
    nlink := (f 3).toUInt64
    uid := (f 4).toUInt64.toUInt32
    gid := (f 5).toUInt64.toUInt32
    rdev := (f 6).toUInt64
    size := f 7
    blksize := f 8
    blocks := f 9
    atime := f 10
    mtime := f 11
    ctime := f 12
    linkIndex := (f 13).toInt32
    flags := (f 14).toUInt64.toUInt32
    dataStream := (f 15).toInt32 }

def fieldCount : Nat := 16

theorem ofFields_fields (s : Stat) : ofFields s.fields = s := by
  cases s
  simp [ofFields, fields]

def encode (s : Stat) : String :=
  String.intercalate " " (s.fields.map Text.Base64Integer.encode)

def ofDecodeError : Text.Base64Integer.DecodeError → AttributeError
  | .noDigits => .malformed "empty base64 field"
  | .badDigit b => .badDigit (Char.ofNat b.toNat)

def readField (bs : Bytes) : Except AttributeError Int64 :=
  match Text.Base64Integer.decode bs with
  | .ok v => .ok v
  | .error e => .error (ofDecodeError e)

def words : (n : Nat) → (current : Bytes) → Bytes → List Bytes
  | 0, _, _ => []
  | _ + 1, current, [] => if current.isEmpty then [] else [current.reverse]
  | n + 1, current, b :: bs =>
    if b == 0x20 then
      if current.isEmpty then words (n + 1) [] bs else current.reverse :: words n [] bs
    else words (n + 1) (b :: current) bs

/-- Reads as many words as there are fields; what follows is ignored. -/
def decode (s : String) : Except AttributeError Stat := do
  let fs ← (words fieldCount [] (Text.Utf8.encode s)).mapM readField
  return ofFields fs

end Stat
end BackupVolume
