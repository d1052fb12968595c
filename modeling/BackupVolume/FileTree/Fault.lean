import BackupVolume.IoFault

/-! # Faults of the file tree

What an operation on files can fail with, and the texts by which it is told.
-/
namespace BackupVolume.FileTree

def notPermitted : IoFault := ⟨.permissionDenied, "Operation not permitted (os error 1)"⟩
def notFound : IoFault := ⟨.notFound, "No such file or directory (os error 2)"⟩
def alreadyExists : IoFault := ⟨.alreadyExists, "File exists (os error 17)"⟩
def notADirectory : IoFault := ⟨.notADirectory, "Not a directory (os error 20)"⟩
def isADirectory : IoFault := ⟨.isADirectory, "Is a directory (os error 21)"⟩
def invalidArgument : IoFault := ⟨.invalidInput, "Invalid argument (os error 22)"⟩
def tooLarge : IoFault := ⟨.tooLarge, "File too large (os error 27)"⟩
def nameTooLong : IoFault := ⟨.nameTooLong, "File name too long (os error 36)"⟩
def linkLoop : IoFault := ⟨.linkLoop, "Too many levels of symbolic links (os error 40)"⟩

end BackupVolume.FileTree
