import BackupVolume.Bytes
import BackupVolume.Session
import BackupVolume.Stream.Tag

/-! # Records

A record is a payload with a file index and a stream tag. Records with a negative file index are
labels of the volume; all others belong to a file.
-/
namespace BackupVolume

structure Record where
  fileIndex : Int32
  tag : StreamTag
  payload : Bytes
  session : Session := {}
  /-- The number of the block in which the record starts. -/
  blockNumber : UInt32 := 0
  deriving DecidableEq

namespace Record

def isLabel (r : Record) : Bool := r.fileIndex < 0

def labelNames : List (Int32 × String) :=
  [(-1, "PRE_LABEL"), (-2, "VOL_LABEL"), (-3, "EOM_LABEL"), (-4, "SOS_LABEL"), (-5, "EOS_LABEL"),
    (-6, "EOT_LABEL")]

def labelName? (fileIndex : Int32) : Option String := labelNames.lookup fileIndex

end Record
end BackupVolume
