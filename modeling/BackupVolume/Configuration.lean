import BackupVolume.IoFault
import BackupVolume.Json.Reader
import BackupVolume.Selection.Glob

/-! # Configurations

A job is configured by files: options, a selection of sessions, and lists of names. What can be
wrong with a file or with the values in it is a configuration error.
-/
namespace BackupVolume

inductive ConfigError where
  | unreadable (path : String) (fault : IoFault)
  | malformed (path : String) (e : Json.ReadError)
  | blockSize (size least greatest : Nat)
  | noBuffer
  | bufferAboveCap (initial cap : Nat)
  | badPattern (pattern : String) (problem : Selection.GlobProblem)
  | noRoomForRecord (capacity : Nat)
  deriving DecidableEq

def ConfigError.message : ConfigError → String
  | .unreadable path fault => path ++ ": " ++ fault.text
  | .malformed path e => path ++ ": " ++ e.message
  | .blockSize size least greatest =>
    "block_size " ++ toString size ++ " outside [" ++ toString least ++ ", " ++ toString greatest
      ++ "]"
  | .noBuffer => "decompression buffer sizes must be non-zero"
  | .bufferAboveCap initial cap =>
    "scratch_initial " ++ toString initial ++ " exceeds decompress_cap " ++ toString cap
  | .badPattern pattern problem =>
    "exclude pattern " ++ Text.Quoted.string pattern ++ ": error parsing glob '" ++ pattern ++ "': "
      ++ problem.message
  | .noRoomForRecord capacity =>
    "block capacity " ++ toString capacity ++ " cannot hold a record header"

structure ConfigFile where
  path : String
  content : Except IoFault Bytes

namespace ConfigFile

def notText : IoFault := ⟨.invalidData, "stream did not contain valid UTF-8"⟩

def text (f : ConfigFile) : Except ConfigError String :=
  match f.content with
  | .error e => .error (.unreadable f.path e)
  | .ok bs => match Text.Utf8.decode? bs with
    | some s => .ok s
    | none => .error (.unreadable f.path notText)

def read {α : Type} (r : Json.Reader α) (f : ConfigFile) : Except ConfigError α := do
  let s ← f.text
  match r.run (Text.Utf8.encode s) with
  | .ok v => return v
  | .error e => .error (.malformed f.path e)

end ConfigFile
end BackupVolume
