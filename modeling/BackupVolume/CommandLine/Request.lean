import BackupVolume.CommandLine.Grammar
import BackupVolume.Device.File
import BackupVolume.FileTree.Path
import BackupVolume.Text.Integer

/-! # Requests

There are three commands: to restore the files of a volume, to copy its records to a new volume,
and to list its records. Each names a device, which is one volume or a directory of volumes.
-/
namespace BackupVolume.CommandLine

structure DeviceRequest where
  path : String := ""
  volumes : Option (List String) := none
  fixedBlock : Option Nat := none
  passphrase : Option String := none
  proceed : Bool := false
  verbosity : UInt8 := 0

structure ExtractRequest where
  device : DeviceRequest := {}
  output : String := ""
  bootstrap : Option String := none
  config : Option String := none
  excludes : Option String := none
  includes : Option String := none
  dryRun : Bool := false
  chunks : Option String := none

structure CopyRequest where
  device : DeviceRequest := {}
  destination : String := ""
  sessionId : UInt32 := 0
  sessionTime : Option UInt32 := none
  bootstrap : Option String := none
  spool : Bool := false
  catalog : Option String := none
  destinationPassphrase : Option String := none

inductive Request where
  | extract (r : ExtractRequest)
  | copy (r : CopyRequest)
  | list (r : DeviceRequest)

namespace Request

def allLevels : Nat := 256

def devicePaths (r : DeviceRequest) : List (String × Nat) :=
  match r.volumes with
  | some (v :: vs) => (v :: vs).map fun name => (FileTree.Path.join r.path name, 0)
  | _ => [(r.path, 1)]

/-- The paths that a request names, and how many levels of directories count below them. -/
def paths : Request → List (String × Nat)
  | extract r => devicePaths r.device
    ++ ([r.bootstrap, r.config, r.excludes, r.includes].filterMap id).map (·, 0)
    ++ (r.chunks.toList.map (·, 1) ++ [(r.output, allLevels)])
  | copy r => devicePaths r.device
    ++ (r.destination :: [r.bootstrap, r.catalog].filterMap id).map (·, 0)
  | list r => devicePaths r

end Request

variable {α : Type}

/-! ## Values of options -/

def textSlot (label : String) (set : α → String → α) : Slot α := ⟨label, fun a v => some (set a v)⟩

def pathSlot (label : String) (set : α → String → α) : Slot α :=
  ⟨label, fun a v => if v == "" then none else some (set a v)⟩

def wordSlot (label : String) (set : α → UInt32 → α) : Slot α :=
  ⟨label, fun a v => (Text.readInteger 0 (UInt32.size - 1) v).map fun n => set a n.toNat.toUInt32⟩

def sizeSlot (label : String) (set : α → Nat → α) : Slot α :=
  ⟨label, fun a v => (Text.readNatural (UInt64.size - 1) v).map (set a)⟩

/-- The names in a list with bars between them; empty names do not count. -/
def splitVolumes (s : String) : List String :=
  (s.splitOn "|").filter (· != "")

/-! ## Grammars -/

/-- The number, which does not get larger than its type allows. -/
def increment (n : UInt8) : UInt8 := if n = 255 then n else n + 1

def DeviceRequest.options : List (OptionRule DeviceRequest) :=
  [{ letter := some 'p', name := "proceed", about := "Proceed despite errors"
     form := .flag fun r => { r with proceed := true } },
    { letter := some 'v', name := "verbose"
      form := .counted fun r => { r with verbosity := increment r.verbosity } },
    { letter := some 'V', name := "volumes", about := "Volume names separated by '|'"
      form := .valued (textSlot "VOLUMES" fun r v => { r with volumes := some (splitVolumes v) }) },
    { name := "fixed-block", about := "Physical block size of a fixed-block volume"
      form := .valued (sizeSlot "FIXED_BLOCK" fun r v => { r with fixedBlock := some v }) },
    { name := "passphrase"
      form := .valued (textSlot "PASSPHRASE" fun r v => { r with passphrase := some v }) }]

def DeviceRequest.place (label : String) : Slot DeviceRequest :=
  pathSlot label fun r v => { r with path := v }

def listGrammar : Grammar DeviceRequest where
  about := "List the records of a volume, labels included"
  options := DeviceRequest.options
  places := [(DeviceRequest.place "DEVICE", "")]

def extractGrammar : Grammar ExtractRequest where
  about := "Restore the files of a volume below a directory"
  options :=
    [{ letter := some 'b', name := "bootstrap"
       about := "Bootstrap file selecting sessions and file indexes"
       form := .valued (pathSlot "BOOTSTRAP" fun r v => { r with bootstrap := some v }) },
      { letter := some 'c', name := "config", about := "Job options file (JSON)"
        form := .valued (pathSlot "CONFIG" fun r v => { r with config := some v }) },
      { letter := some 'e', name := "exclude", about := "Exclude list, one pattern per line"
        form := .valued (pathSlot "EXCLUDE" fun r v => { r with excludes := some v }) },
      { letter := some 'i', name := "include", about := "Include list, one path per line"
        form := .valued (pathSlot "INCLUDE" fun r v => { r with includes := some v }) },
      { letter := some 't', name := "dry-run", about := "List files only, restore nothing"
        form := .flag fun r => { r with dryRun := true } },
      { name := "dedup-store", about := "Directory of dedup chunks named by hex digest"
        form := .valued (pathSlot "DEDUP_STORE" fun r v => { r with chunks := some v }) }]
    ++ DeviceRequest.options.map (·.within ExtractRequest.device fun r device => { r with device })
  places :=
    [((DeviceRequest.place "DEVICE").within ExtractRequest.device fun r device => { r with device },
        "Volume file, or the directory holding the volumes named by -V"),
      (pathSlot "WHERE" fun r v => { r with output := v }, "")]

def copyGrammar : Grammar CopyRequest where
  about := "Copy the records of a volume to a new volume under a new session"
  options :=
    [{ name := "session-id", isRequired := true
       form := .valued (wordSlot "SESSION_ID" fun r v => { r with sessionId := v }) },
      { name := "session-time", about := "Defaults to now"
        form := .valued (wordSlot "SESSION_TIME" fun r v => { r with sessionTime := some v }) },
      { letter := some 'b', name := "bootstrap"
        about := "Bootstrap file selecting the sessions and file indexes to copy"
        form := .valued (pathSlot "BOOTSTRAP" fun r v => { r with bootstrap := some v }) },
      { name := "spool", about := "Hold catalog entries until the copy succeeds"
        form := .flag fun r => { r with spool := true } },
      { name := "catalog", about := "Write catalog entries as JSON lines to this file"
        form := .valued (pathSlot "CATALOG" fun r v => { r with catalog := some v }) },
      { name := "dest-passphrase"
        form := .valued (textSlot "DEST_PASSPHRASE" fun r v =>
          { r with destinationPassphrase := some v }) }]
    ++ DeviceRequest.options.map (·.within CopyRequest.device fun r device => { r with device })
  places :=
    [((DeviceRequest.place "SOURCE").within CopyRequest.device fun r device => { r with device },
        ""),
      (pathSlot "DEST" fun r v => { r with destination := v }, "")]

/-! ## Commands -/

def programName : String := "volstream"

def about : String := "Read, extract and copy backup volumes"

inductive Command where
  | extract
  | copy
  | list
  deriving DecidableEq

namespace Command

def all : List Command := [extract, copy, list]

def name : Command → String
  | extract => "extract"
  | copy => "copy"
  | list => "ls"

def ofName? (s : String) : Option Command := all.find? fun c => c.name == s

def about : Command → String
  | extract => extractGrammar.about
  | copy => copyGrammar.about
  | list => listGrammar.about

def usage (c : Command) : List String :=
  let call := programName ++ " " ++ c.name
  match c with
  | extract => extractGrammar.usage call
  | copy => copyGrammar.usage call
  | list => listGrammar.usage call

def read (arguments : List String) : Command → Except UsageError Request
  | extract => (extractGrammar.read {} arguments).map .extract
  | copy => (copyGrammar.read {} arguments).map .copy
  | list => (listGrammar.read {} arguments).map .list

end Command

def usage : List String :=
  [about, "", "Usage: " ++ programName ++ " <COMMAND>", "", "Commands:"]
    ++ columns ((Command.all.map fun c => (c.name, c.about))
      ++ [("help", "Print this message or the help of the given command")])

inductive Refusal where
  | help (lines : List String)
  | misuse (e : UsageError)
  deriving DecidableEq

def helpAbout : List String → Refusal
  | [] => .help usage
  | [name] => match Command.ofName? name with
    | some c => .help c.usage
    | none => if name == "help" then .help usage else .misuse (.unknownCommand name)
  | _ :: name :: _ => .misuse (.unknownCommand name)

def refuse (s : String) : Refusal :=
  match Word.ofString s with
  | .option "help" none => .help usage
  | .letters ('h' :: _) => .help usage
  | .plain name => .misuse (.unknownCommand name)
  | _ => .misuse (.unexpected s)

def Request.ofArguments : List String → Except Refusal Request
  | [] => .error (.misuse .noCommand)
  | name :: arguments =>
    match Command.ofName? name with
    | some c => match c.read arguments with
      | .ok r => .ok r
      | .error .helpAsked => .error (.help c.usage)
      | .error e => .error (.misuse e)
    | none => .error (if name == "help" then helpAbout arguments else refuse name)

end BackupVolume.CommandLine
