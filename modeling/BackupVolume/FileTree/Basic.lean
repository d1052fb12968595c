import BackupVolume.FileTree.Fault
import BackupVolume.FileTree.Path

/-! # Trees of files

Files, directories and symbolic links, each under a number. A directory gives names to numbers, so
that one file may have several names. The root has the number zero. Paths that do not start at the
root start at the working directory. Looking up a path follows links, at most forty of them.
-/
namespace BackupVolume

inductive FileTree.Node where
  | file (mode : Nat) (content : Array UInt8)
  | directory (mode : Nat) (parent : Nat) (entries : List (String × Nat))
  | link (target : String)
  deriving DecidableEq

structure FileTree where
  nodes : Array FileTree.Node
  working : Nat := 0

namespace FileTree

def root : Nat := 0

def empty : FileTree := { nodes := #[.directory 0o755 root []] }

def entries? (t : FileTree) (directory : Nat) : Option (List (String × Nat)) :=
  match t.nodes[directory]? with
  | some (.directory _ _ entries) => some entries
  | _ => none

def content? (t : FileTree) (file : Nat) : Option (Array UInt8) :=
  match t.nodes[file]? with
  | some (.file _ content) => some content
  | _ => none

def isDirectory (t : FileTree) (node : Nat) : Bool := (t.entries? node).isSome

/-- What a path leads to: a directory without a name of its own, or a name in a directory, which
may be free. -/
inductive Place where
  | unnamed (directory : Nat)
  | entry (directory : Nat) (name : String) (node : Option Nat)
  deriving DecidableEq

def Place.node? : Place → Option Nat
  | unnamed d => some d
  | entry _ _ node => node

def maxNameLength : Nat := 255
def maxPathLength : Nat := 4095
def maxLinks : Nat := 40

/-- Follows the parts of a path from a directory on. A link at the end is followed where `follow`
asks; the number of links is limited by `budget`. -/
def walk (t : FileTree) (follow : Bool) (budget directory : Nat) :
    List String → Except IoFault Place
  | [] => .ok (.unnamed directory)
  | name :: rest =>
    match t.nodes[directory]? with
    | some (.directory _ parent entries) =>
      if name = "." then walk t follow budget directory rest
      else if name = ".." then walk t follow budget parent rest
      else if maxNameLength < name.utf8ByteSize then .error nameTooLong
      else
        match entries.lookup name with
        | none => if rest.isEmpty then .ok (.entry directory name none) else .error notFound
        | some node =>
          match t.nodes[node]? with
          | some (.link target) =>
            if rest.isEmpty && !follow then .ok (.entry directory name (some node))
            else
              match budget with
              | 0 => .error linkLoop
              | budget + 1 =>
                let path := Path.ofString target
                walk t follow budget (if path.fromRoot then root else directory)
                  (path.parts ++ ((if path.isDirectory then ["."] else []) ++ rest))
          | _ =>
            if rest.isEmpty then .ok (.entry directory name (some node))
            else walk t follow budget node rest
    | _ => .error notADirectory
termination_by parts => (budget, parts.length)

def placeOf (t : FileTree) (follow : Bool) (fromRoot : Bool) (parts : List String) :
    Except IoFault Place :=
  t.walk follow maxLinks (if fromRoot then root else t.working) parts

/-- The place that a path leads to. Unless a slash at its end is left aside, it must then be a
directory. -/
def locate (t : FileTree) (follow : Bool) (path : String) (keepSlash : Bool := true) :
    Except IoFault Place :=
  if path == "" then .error notFound
  else if maxPathLength < path.utf8ByteSize then .error nameTooLong
  else
    let p := Path.ofString path
    t.placeOf follow p.fromRoot (p.parts ++ if keepSlash && p.isDirectory then ["."] else [])

def find (t : FileTree) (follow : Bool) (path : String) : Except IoFault Nat := do
  match (← t.locate follow path).node? with
  | some node => return node
  | none => .error notFound

def readFile (t : FileTree) (path : String) : Except IoFault (Array UInt8) := do
  match t.content? (← t.find true path) with
  | some content => return content
  | none => .error isADirectory

def filesIn (t : FileTree) (path : String) : Except IoFault (List (String × Array UInt8)) := do
  match t.entries? (← t.find true path) with
  | some entries => return entries.filterMap fun (name, node) =>
      (t.content? node).map fun content => (name, content)
  | none => .error notADirectory

end FileTree
end BackupVolume
