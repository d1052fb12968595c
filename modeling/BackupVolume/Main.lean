import BackupVolume.CommandLine.Program
import BackupVolume.FileTree.Difference
import Std.Time.DateTime.Timestamp

/-! # The program on a real system

The files that a request names are read into a tree, the request is worked on in the tree, and what
has changed is written back.
-/
namespace BackupVolume.CommandLine

def kindAt (path : String) : IO (Option IO.FS.FileType) := do
  let found ← ((← IO.currentDir) / path).metadata.toBaseIO
  return found.toOption.map IO.FS.Metadata.type

/-- Puts what is found at a path into the tree, with so many levels of directories. -/
def readPath : (levels : Nat) → FileTree → (path : String) → IO FileTree
  | levels, t, path => do
    match ← kindAt path with
    | some .dir =>
      let t := (t.makeAll path).1
      match levels with
      | 0 => return t
      | levels + 1 =>
        (← ((← IO.currentDir) / path).readDir).foldlM (fun t e =>
          readPath levels t (FileTree.Path.push path e.fileName)) t
    | some .file =>
      match t.openEmpty path with
      | (t, .ok node) => return (t.writeAt node 0 (← IO.FS.readBinFile path).data.toList).1
      | (t, .error _) => return t
    | _ => return t

/-- The directories that a path leads through, outermost first. -/
def waypoints (path : String) : List String :=
  let p := FileTree.Path.ofString path
  let start := if p.fromRoot then "/" else ""
  (List.range p.parts.length).map fun n =>
    (p.parts.take n).foldl FileTree.Path.push start

def readTree (request : Request) : IO FileTree := do
  let here := (← IO.currentDir).toString
  let t := (FileTree.empty.makeAll here).1
  let t := { t with working := (t.find true here).toOption.getD FileTree.root }
  request.paths.foldlM (fun t (path, levels) => do
    let t ← (waypoints path).foldlM (readPath 0) t
    readPath levels t path) t

def accessRight (bits : Nat) : IO.AccessRight :=
  { read := bits.testBit 2, write := bits.testBit 1, execution := bits.testBit 0 }

def setMode (path : String) (mode : Nat) : IO Unit :=
  IO.setAccessRights path
    { user := accessRight (mode >>> 6), group := accessRight (mode >>> 3),
      other := accessRight mode }

def writeChange : FileTree.Change → IO Unit
  | .remove path => IO.FS.removeFile path
  | .directory path mode => do
    IO.FS.createDirAll path
    setMode path mode
  | .file path mode content => do
    IO.FS.writeBinFile path ⟨content⟩
    setMode path mode
  | .link path target =>
    IO.eprintln (complaint ("cannot make the symbolic link " ++ path ++ " to " ++ target))

def runOnSystem (arguments : List String) : IO UInt32 := do
  let started := (← Std.Time.Timestamp.now).toSecondsSinceUnixEpoch.val
  let clock ← IO.monoMsNow
  let tree ← match Request.ofArguments arguments with
    | .ok request => readTree request
    | .error _ => pure FileTree.empty
  let nonce := ⟨Bytes.toNat (← IO.getRandomBytes 12).data.toList⟩
  let report := run { tree, now := started.toNat, nonce } arguments
  (FileTree.changes tree report.tree).forM writeChange
  (report.output started ((← IO.monoMsNow) - clock)).forM IO.println
  report.complaints.forM IO.eprintln
  return report.exitCode.toUInt32

end BackupVolume.CommandLine

def main (arguments : List String) : IO UInt32 :=
  BackupVolume.CommandLine.runOnSystem arguments
