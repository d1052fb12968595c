import BackupVolume.FileTree.Basic

/-! # Listing trees of files

What lies below a directory, each with its path from there on.
-/
namespace BackupVolume.FileTree

/-- Everything below a directory. The depth of a tree is less than the number of its nodes. -/
def belowWithin (t : FileTree) (directory : Nat) (path : String) :
    (depth : Nat) → List (String × Nat)
  | 0 => []
  | depth + 1 =>
    ((t.entries? directory).getD []).flatMap fun (name, node) =>
      let path := Path.push path name
      (path, node) :: t.belowWithin node path depth

def below (t : FileTree) (directory : Nat) : List (String × Nat) :=
  t.belowWithin directory "" t.nodes.size

end BackupVolume.FileTree
