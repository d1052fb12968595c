/-! # Faults of devices and files

What kind of thing went wrong outside, and how it is told.
-/
namespace BackupVolume

inductive FaultKind where
  | notFound
  | permissionDenied
  | alreadyExists
  | notADirectory
  | isADirectory
  | tooLarge
  | nameTooLong
  | linkLoop
  | brokenPipe
  | invalidInput
  | invalidData
  | other
  deriving DecidableEq

structure IoFault where
  kind : FaultKind
  text : String
  deriving DecidableEq

end BackupVolume
