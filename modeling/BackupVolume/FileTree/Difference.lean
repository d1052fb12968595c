import BackupVolume.FileTree.Listing

/-! # Differences between trees of files

The changes that make a tree out of one that it came from: what has to be removed, and what has to
be made or written again.
-/
namespace BackupVolume.FileTree

inductive Change where
  | remove (path : String)
  | directory (path : String) (mode : Nat)
  | file (path : String) (mode : Nat) (content : Array UInt8)
  | link (path target : String)

def nodeUnder? (t : FileTree) (path : String) : Option Nat := (t.find false ("/" ++ path)).toOption

def Node.change (path : String) : Node → Change
  | .file mode content => .file path mode content
  | .directory mode .. => .directory path mode
  | .link target => .link path target

/-- The same but for what lies in it. -/
def Node.agrees : Node → Node → Bool
  | .directory mode .., .directory mode' .. => mode == mode'
  | a, b => a == b

/-- The names that lead to something else now, or to nothing. -/
def removed (old new : FileTree) : List Change :=
  (old.below root).filterMap fun (path, node) =>
    if new.nodeUnder? path = some node then none else some (.remove ("/" ++ path))

/-- What is new or has changed; directories come before what lies in them. -/
def made (old new : FileTree) : List Change :=
  (new.below root).filterMap fun (path, node) => do
    let n ← new.nodes[node]?
    let isKept := old.nodeUnder? path == some node && (old.nodes[node]?.any fun o => o.agrees n)
    if isKept then none else some (n.change ("/" ++ path))

def changes (old new : FileTree) : List Change := removed old new ++ made old new

end BackupVolume.FileTree
