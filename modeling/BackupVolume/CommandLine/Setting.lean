import BackupVolume.CommandLine.Request
import BackupVolume.Device.Chain
import BackupVolume.FileTree.Change
import BackupVolume.Job.Run

/-! # Working on requests

A request is worked on in a tree of files. What has been changed in the tree stays changed when
something goes wrong later. Files are opened before anything is made, and read when all that has to
be made empty is made.
-/
namespace BackupVolume.CommandLine

inductive Trouble where
  | file (fault : IoFault)
  | key (e : CryptoError)
  | failure (e : Failure)
  | aborted (a : Aborted)

def Trouble.message : Trouble → String
  | file fault => fault.text
  | key e => e.message
  | failure e => e.message
  | aborted a => a.cause.message

/-- Work that changes files and may come to an end early. -/
abbrev Task := ExceptT Trouble (StateM FileTree)

namespace Task
variable {α ε : Type}

def check (trouble : ε → Trouble) : Except ε α → Task α
  | .ok a => return a
  | .error e => throw (trouble e)

def config : Except ConfigError α → Task α := check fun e => .failure (.config e)

def file : Except IoFault α → Task α := check .file

def change (f : FileTree → FileTree × Except IoFault α) : Task α := do
  let (tree, r) := f (← get)
  set tree
  file r

def configFile (path : String) : Task ConfigFile :=
  return ⟨path, ((← get).readFile path).map Array.toList⟩

def bootstrap (path : Option String) : Task Bootstrap :=
  match path with
  | none => return {}
  | some p => do config (Bootstrap.load (← configFile p))

def key (passphrase : Option String) : Task (Option VolumeKey) :=
  match passphrase with
  | none => return none
  | some p => return some (← check .key (VolumeKey.ofPassphrase p))

end Task

/-- The octets of an opened file. A directory can be opened, but not read. -/
structure FileOctets where
  rest : Option Bytes

instance : OctetReader FileOctets where
  read f n := match f.rest with
    | some bs => (⟨some (bs.drop n)⟩, .data (bs.take n))
    | none => (f, .failed FileTree.isADirectory)
  remaining f := f.rest.elim 0 List.length
  remaining_read f n := by
    obtain ⟨rest⟩ := f
    cases rest with
    | none => trivial
    | some bs => exact OctetReader.remaining_read bs n

structure OpenVolume where
  path : String
  node : Nat

abbrev Device := Chain (FileSource FileOctets)

def blockMode (r : DeviceRequest) : BlockMode := r.fixedBlock.elim .packed .fixed

def OpenVolume.source (t : FileTree) (mode : BlockMode) (v : OpenVolume) : FileSource FileOctets :=
  { reader := ⟨(t.content? v.node).map Array.toList⟩, name := v.path, mode }

def openVolume (path : String) : Task OpenVolume := do
  return ⟨path, ← Task.file ((← get).find true path)⟩

def openVolumes (device : String) : List String → Task (List OpenVolume)
  | [] => return [← openVolume device]
  | names => names.mapM fun name => openVolume (FileTree.Path.join device name)

def deviceOf (t : FileTree) (mode : BlockMode) (volumes : List OpenVolume) : Device :=
  .ofList (volumes.map (OpenVolume.source t mode))

def Task.finish : Except Aborted Summary → Task Summary := Task.check .aborted

end BackupVolume.CommandLine
