import BackupVolume.Bytes
import BackupVolume.FileTree.Basic

/-! # Changing trees of files

Creating, removing and changing files, directories and links. New files and directories get the
usual permissions of a privileged user: all may read, only the owner may write. A directory hands
its set-group mark on to the directories made in it.
-/
namespace BackupVolume.FileTree

def newFileMode : Nat := 0o644
def newDirectoryMode : Nat := 0o755
def setGroupBit : Nat := 0o2000
def maxFileLength : Nat := 0xFFFFFFFF000

def enter (t : FileTree) (directory : Nat) (name : String) (node : Nat) : FileTree :=
  { t with nodes := t.nodes.modify directory fun
      | .directory mode parent entries => .directory mode parent ((name, node) :: entries)
      | n => n }

def add (t : FileTree) (directory : Nat) (name : String) (n : Node) : FileTree × Nat :=
  let node := t.nodes.size
  ({ t with nodes := t.nodes.push n }.enter directory name node, node)

/-- The mode that a directory hands on to directories made in it. -/
def handedOn (t : FileTree) (directory : Nat) : Nat :=
  match t.nodes[directory]? with
  | some (.directory mode ..) => mode &&& setGroupBit
  | _ => 0

def makeAt (t : FileTree) : Place → FileTree × Except IoFault Unit
  | .entry directory name none =>
    ((t.add directory name
      (.directory (newDirectoryMode ||| t.handedOn directory) directory [])).1, .ok ())
  | _ => (t, .error alreadyExists)

def makeParts (t : FileTree) (fromRoot : Bool) (parts : List String) :
    FileTree × Except IoFault Unit :=
  match t.placeOf false fromRoot parts with
  | .error e => (t, .error e)
  | .ok place => t.makeAt place

def leadsToDirectory (t : FileTree) (fromRoot : Bool) (parts : List String) : Bool :=
  match t.placeOf true fromRoot parts with
  | .ok place => place.node?.any t.isDirectory
  | .error _ => false

/-- Makes a directory, after the directories that it lies in; parts are given last part first. -/
def makeAllParts (t : FileTree) (fromRoot : Bool) : List String → FileTree × Except IoFault Unit
  | [] => (t, .ok ())
  | part :: above =>
    let parts := (part :: above).reverse
    let settled : FileTree × Except IoFault Unit → FileTree × Except IoFault Unit
      | (t, .ok ()) => (t, .ok ())
      | (t, .error e) => if t.leadsToDirectory fromRoot parts then (t, .ok ()) else (t, .error e)
    match t.makeParts fromRoot parts with
    | (t, .ok ()) => (t, .ok ())
    | (t, .error e) =>
      if e.kind = .notFound then
        match makeAllParts t fromRoot (Path.parentParts (part :: above)) with
        | (t, .error e) => (t, .error e)
        | (t, .ok ()) => settled (t.makeParts fromRoot parts)
      else settled (t, .error e)
termination_by reversed => reversed.length
decreasing_by exact Path.length_parentParts_lt

def makeAll (t : FileTree) (path : String) : FileTree × Except IoFault Unit :=
  let p := Path.ofString path
  if maxPathLength < path.utf8ByteSize then (t, .error nameTooLong)
  else t.makeAllParts p.fromRoot p.parts.reverse

/-- An empty file at a path: a new one, or the one that was there, emptied. -/
def openEmpty (t : FileTree) (path : String) : FileTree × Except IoFault Nat :=
  match t.locate true path false with
  | .error e => (t, .error e)
  | .ok (.unnamed _) => (t, .error isADirectory)
  | .ok (.entry directory name found) =>
    if (Path.ofString path).isDirectory then (t, .error isADirectory)
    else
      match found with
      | none =>
        let (t, node) := t.add directory name (.file newFileMode #[])
        (t, .ok node)
      | some node =>
        if t.isDirectory node then (t, .error isADirectory)
        else
          ({ t with nodes := t.nodes.modify node fun
            | .file mode _ => .file mode #[]
            | n => n }, .ok node)

/-- Takes a name away that does not belong to a directory. -/
def remove (t : FileTree) (path : String) : FileTree × Except IoFault Unit :=
  match t.locate false path with
  | .error e => (t, .error e)
  | .ok (.unnamed _) => (t, .error isADirectory)
  | .ok (.entry _ _ none) => (t, .error notFound)
  | .ok (.entry directory name (some node)) =>
    if t.isDirectory node then (t, .error isADirectory)
    else
      ({ t with nodes := t.nodes.modify directory fun
        | .directory mode parent entries =>
          .directory mode parent (entries.filter fun e => e.1 != name)
        | n => n }, .ok ())

def makeLink (t : FileTree) (target path : String) : FileTree × Except IoFault Unit :=
  if target == "" then (t, .error notFound)
  else if maxPathLength < target.utf8ByteSize then (t, .error nameTooLong)
  else match t.locate false path with
    | .error e => (t, .error e)
    | .ok (.entry directory name none) => ((t.add directory name (.link target)).1, .ok ())
    | .ok _ => (t, .error alreadyExists)

/-- Gives a file one more name. -/
def makeName (t : FileTree) (existing path : String) : FileTree × Except IoFault Unit :=
  match t.find false existing with
  | .error e => (t, .error e)
  | .ok node =>
    match t.locate false path with
    | .error e => (t, .error e)
    | .ok (.entry directory name none) =>
      if t.isDirectory node then (t, .error notPermitted) else (t.enter directory name node, .ok ())
    | .ok _ => (t, .error alreadyExists)

def setMode (t : FileTree) (path : String) (mode : Nat) : FileTree × Except IoFault Unit :=
  match t.find true path with
  | .error e => (t, .error e)
  | .ok node =>
    ({ t with nodes := t.nodes.modify node fun
      | .file _ content => .file mode content
      | .directory _ parent entries => .directory mode parent entries
      | n => n }, .ok ())

def overwrite (content : Array UInt8) (position : Nat) : Bytes → Array UInt8
  | [] => content
  | b :: bs =>
    if h : position < content.size then overwrite (content.set position b) (position + 1) bs
    else overwrite (content.push b) (position + 1) bs

def lengthen (content : Array UInt8) (length : Nat) : Array UInt8 :=
  content ++ Array.replicate (length - content.size) 0

/-- Writes into a file; a gap before the position is filled with zeros. -/
def writeAt (t : FileTree) (file position : Nat) (data : Bytes) : FileTree × Except IoFault Unit :=
  if data.isEmpty then (t, .ok ())
  else if maxFileLength < position + data.length then (t, .error tooLarge)
  else
    ({ t with nodes := t.nodes.modify file fun
      | .file mode content => .file mode (overwrite (lengthen content position) position data)
      | n => n }, .ok ())

def extendTo (t : FileTree) (file length : Nat) : FileTree × Except IoFault Unit :=
  match t.content? file with
  | none => (t, .ok ())
  | some content =>
    if length ≤ content.size then (t, .ok ())
    else if maxFileLength < length then (t, .error tooLarge)
    else
      ({ t with nodes := t.nodes.modify file fun
        | .file mode content => .file mode (lengthen content length)
        | n => n }, .ok ())

end BackupVolume.FileTree
