import BackupVolume.Attributes.Basic
import BackupVolume.IoFault

/-! # Creating files

A creator makes the files that attribute records describe. It may open a file for the data that
follow, have made it completely, or pass over it.
-/
namespace BackupVolume

inductive Disposition (η : Type) where
  | file (handle : η)
  | created
  | skipped

class FileCreator (φ : Type) (η : outParam Type) where
  create : φ → Attributes → φ × Except IoFault (Disposition η)
  path : φ → η → String
  seek : φ → η → (address : Nat) → φ × Except IoFault η
  write : φ → η → Bytes → φ × Except IoFault η
  finish : φ → η → Attributes → φ × Except IoFault Unit

end BackupVolume
