import BackupVolume.Configuration
import BackupVolume.Text.Blank

/-! # Selecting files by name

A file is taken when it is included and not excluded. Includes are names of files or directories,
and a directory includes all that is below it; without includes every file is included. Excludes are
patterns for whole names or last components.
-/
namespace BackupVolume.Selection

/-- A name without the slashes at its end, unless it is just one character. -/
def withoutSlashes (cs : List Char) : List Char := (cs.reverse.dropWhile (· == '/')).reverse

def stripped (cs : List Char) : List Char := if 1 < cs.length then withoutSlashes cs else cs

/-- What stands before the last slash, given last character first. -/
def parentReversed? (cs : List Char) : Option (List Char) :=
  match cs.dropWhile (· != '/') with
  | [] => none
  | _ :: rest => some rest

theorem length_parentReversed? {cs ps : List Char} (h : parentReversed? cs = some ps) :
    ps.length < cs.length := by
  rw [parentReversed?] at h
  have := (List.dropWhile_suffix (· != '/') (l := cs)).length_le
  split at h
  · cases h
  · next e =>
    obtain rfl := Option.some.inj h
    rw [e, List.length_cons] at this
    omega

/-- The names of all directories above a name that is given last character first. -/
def parentsReversed (cs : List Char) : List (List Char) :=
  match _h : parentReversed? cs with
  | none => []
  | some ps => ps :: parentsReversed ps
termination_by cs.length
decreasing_by exact length_parentReversed? _h

def parents (cs : List Char) : List (List Char) := (parentsReversed cs.reverse).map List.reverse

structure PathFilter where
  includes : List (List Char) := []
  excludes : List Glob := []

namespace PathFilter

def ofPatterns (includes excludes : List String) : Except ConfigError PathFilter := do
  let globs ← excludes.mapM fun p => match Glob.parse p with
    | .ok g => .ok g
    | .error e => .error (.badPattern p e)
  return ⟨includes.map fun s => stripped s.toList, globs⟩

def isEmpty (f : PathFilter) : Bool := f.includes.isEmpty && f.excludes.isEmpty

def isIncluded (f : PathFilter) (name : String) : Bool :=
  let cs := stripped name.toList
  f.includes.isEmpty || f.includes.any (fun i => i == cs || i == ['/'])
    || (parents cs).any f.includes.contains

def lastComponent (cs : List Char) : List Char := (cs.reverse.takeWhile (· != '/')).reverse

def isExcluded (f : PathFilter) (name : String) : Bool :=
  let cs := withoutSlashes name.toList
  f.excludes.any fun g =>
    g.isMatch (String.ofList cs) || g.isMatch (String.ofList (lastComponent cs))

def accepts (f : PathFilter) (name : String) : Bool := f.isIncluded name && !f.isExcluded name

/-- The entries of a list: one a line, without empty lines and comments. -/
def entriesOfList (text : String) : List String :=
  let lines := (text.splitOn "\n").map Text.trim
  lines.filter fun l => l != "" && !l.startsWith "#"

def ofLists (includes excludes : Option ConfigFile) : Except ConfigError PathFilter := do
  let entries (f : Option ConfigFile) : Except ConfigError (List String) := match f with
    | some f => return entriesOfList (← f.text)
    | none => return []
  ofPatterns (← entries includes) (← entries excludes)

end PathFilter
end BackupVolume.Selection
