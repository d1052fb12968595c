import BackupVolume.Bytes
import BackupVolume.IoFault

/-! # Devices to write to

A sink takes blocks one after another, until it can take no more or is released.
-/
namespace BackupVolume

class BlockSink (κ : Type) where
  name : κ → String
  write : κ → Bytes → κ × Except IoFault Unit
  canWrite : κ → Bool
  release : κ → κ × Except IoFault Unit

end BackupVolume
