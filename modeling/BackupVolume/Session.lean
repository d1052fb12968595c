/-! # Sessions

The job that wrote a block or a record, known by its number and the time it was started.
-/
namespace BackupVolume

structure Session where
  id : UInt32 := 0
  time : UInt32 := 0
  deriving DecidableEq

end BackupVolume
