import BackupVolume.FileTree.Change
import BackupVolume.Restore.Creator

/-! # Restoring into a tree of files

Files are made below one directory, each under its name on the volume. Names that lead upwards or
nowhere are passed over. A link takes the place of what had its name before.
-/
namespace BackupVolume

structure LocalFiles where
  tree : FileTree
  /-- The path of the directory below which files are made. -/
  root : String

structure LocalFile where
  node : Nat
  path : String
  position : Nat := 0

namespace LocalFiles

/-- The parts of a name; nothing if it leads upwards or nowhere. -/
def parts? (name : String) : Option (List String) :=
  let parts := (FileTree.Path.partsOf name).filter (· != ".")
  if parts.isEmpty || parts.contains ".." then none else some parts

def target? (root name : String) : Option String :=
  (parts? name).map fun parts => parts.foldl FileTree.Path.push root

def directoryOf (root name : String) : String :=
  ((parts? name).getD []).dropLast.foldl FileTree.Path.push root

def permissions (mode : UInt32) : Nat := (mode &&& 0o7777).toNat

def applyMode (t : FileTree) (path : String) (mode : UInt32) : FileTree × Except IoFault Unit :=
  if permissions mode = 0 then (t, .ok ()) else t.setMode path (permissions mode)

/-- Removes what has a name that is wanted for a link. -/
def clear (t : FileTree) (path : String) : FileTree × Except IoFault Unit :=
  match t.find false path with
  | .ok _ => t.remove path
  | .error _ => (t, .ok ())

def andThen (r : FileTree × Except IoFault Unit)
    (next : FileTree → FileTree × Except IoFault Unit) : FileTree × Except IoFault Unit :=
  match r with
  | (t, .ok ()) => next t
  | (t, .error e) => (t, .error e)

def createAt (root : String) (t : FileTree) (path : String) (a : Attributes) :
    FileTree × Except IoFault (Disposition LocalFile) :=
  let made (r : FileTree × Except IoFault Unit) :
      FileTree × Except IoFault (Disposition LocalFile) := (r.1, r.2.map fun _ => .created)
  match a.type with
  | .regular | .regularEmpty =>
    let (t, r) := t.openEmpty path
    (t, r.map fun node => .file { node, path })
  | .directory => made (andThen (t.makeAll path) (applyMode · path a.stat.mode))
  | .symbolicLink => made (andThen (clear t path) (·.makeLink a.link path))
  | .linkSaved =>
    match target? root a.link with
    | none => (t, .ok .skipped)
    | some existing => made (andThen (clear t path) (·.makeName existing path))
  | .deleted | .other => (t, .ok .skipped)

def create (c : LocalFiles) (a : Attributes) :
    LocalFiles × Except IoFault (Disposition LocalFile) :=
  match target? c.root a.name with
  | none => (c, .ok .skipped)
  | some path =>
    match c.tree.makeAll (directoryOf c.root a.name) with
    | (tree, .error e) => ({ c with tree }, .error e)
    | (tree, .ok ()) =>
      let (tree, r) := createAt c.root tree path a
      ({ c with tree }, r)

def seek (c : LocalFiles) (f : LocalFile) (address : Nat) : LocalFiles × Except IoFault LocalFile :=
  if FileTree.maxFileLength < address then (c, .error FileTree.invalidArgument)
  else (c, .ok { f with position := address })

def write (c : LocalFiles) (f : LocalFile) (data : Bytes) : LocalFiles × Except IoFault LocalFile :=
  match c.tree.writeAt f.node f.position data with
  | (tree, .error e) => ({ c with tree }, .error e)
  | (tree, .ok ()) => ({ c with tree }, .ok { f with position := f.position + data.length })

/-- A file that is shorter than its attributes tell is lengthened. -/
def finish (c : LocalFiles) (f : LocalFile) (a : Attributes) : LocalFiles × Except IoFault Unit :=
  let (tree, r) := andThen (c.tree.extendTo f.node a.stat.size.toInt.toNat)
    (applyMode · f.path a.stat.mode)
  ({ c with tree }, r)

instance : FileCreator LocalFiles LocalFile where
  create := create
  path _ := LocalFile.path
  seek := seek
  write := write
  finish := finish

end LocalFiles
end BackupVolume
