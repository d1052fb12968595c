import BackupVolume.Configuration
import BackupVolume.Json.Value
import BackupVolume.Record.Basic

/-! # Selecting records

A selector tells which records belong to a job. A bootstrap is a selection that is kept in a JSON
file: it names the volumes to read, and the sessions to take records from, all of them or those in
ranges of file indexes. Labels always belong to the job.
-/
namespace BackupVolume

abbrev Selector := Record → Bool

def Selector.all : Selector := fun _ => true

structure SessionSelection where
  id : UInt32 := 0
  /-- Any time will do where none is given. -/
  time? : Option UInt32 := none
  /-- The first and the last index of every range; no ranges select every file. -/
  ranges : List (Int32 × Int32) := []
  deriving DecidableEq

structure Bootstrap where
  volumes : List String := []
  sessions : List SessionSelection := []
  deriving DecidableEq

namespace SessionSelection
open Json.Reader

def selects (s : SessionSelection) (r : Record) : Bool :=
  r.session.id == s.id && s.time?.all (· == r.session.time)
    && (s.ranges.isEmpty || s.ranges.any fun (first, last) =>
      decide (first ≤ r.fileIndex) && decide (r.fileIndex ≤ last))

def fields : List (Member SessionSelection) :=
  [⟨"session_id", true, fun s => return { s with id := ← uint32 }⟩,
    ⟨"session_time", false, fun s => return { s with time? := ← nullable uint32 }⟩,
    ⟨"file_indexes", false, fun s => return { s with ranges := ← list (pair int32 int32) }⟩]

def reader : Json.Reader SessionSelection := record "SessionSelection" fields {}

def toJson (s : SessionSelection) : Json.Value :=
  .object ([("session_id", .number s.id.toNat)]
    ++ (s.time?.toList.map fun t => ("session_time", .number t.toNat))
    ++ [("file_indexes", .list (s.ranges.map fun (first, last) =>
      .list [.number first.toInt, .number last.toInt]))])

end SessionSelection

namespace Bootstrap
open Json.Reader

/-- No sessions select everything. -/
def selector (b : Bootstrap) : Selector := fun r =>
  r.isLabel || b.sessions.isEmpty || b.sessions.any fun s => s.selects r

def fields : List (Member Bootstrap) :=
  [⟨"volumes", false, fun b => return { b with volumes := ← list text }⟩,
    ⟨"sessions", false, fun b => return { b with sessions := ← list SessionSelection.reader }⟩]

def reader : Json.Reader Bootstrap := record "Bootstrap" fields {}

def load (f : ConfigFile) : Except ConfigError Bootstrap := f.read reader

def toJson (b : Bootstrap) : Json.Value :=
  .object [("volumes", .list (b.volumes.map .text)),
    ("sessions", .list (b.sessions.map SessionSelection.toJson))]

end Bootstrap
end BackupVolume
