/-! # Paths of files

A path is a text whose parts stand between slashes; a slash in front makes it start at the root.
Empty parts mean nothing, one dot is the directory itself and two dots are the one above.
-/
namespace BackupVolume.FileTree

structure Path where
  fromRoot : Bool
  parts : List String
  /-- A slash at the end asks for a directory. -/
  isDirectory : Bool
  deriving DecidableEq

namespace Path

def splitSlashes (cs : List Char) : List (List Char) :=
  cs.foldr (fun c parts => match parts with
    | [] => if c = '/' then [[], []] else [[c]]
    | p :: ps => if c = '/' then [] :: p :: ps else (c :: p) :: ps) []

def partsOf (s : String) : List String :=
  ((splitSlashes s.toList).filter (!·.isEmpty)).map String.ofList

def ofString (s : String) : Path :=
  ⟨s.toList.head? == some '/', partsOf s, s.toList.getLast? == some '/'⟩

def push (path part : String) : String :=
  if path == "" || path.toList.getLast? == some '/' then path ++ part else path ++ "/" ++ part

def join (directory path : String) : String :=
  if path.toList.head? == some '/' then path else push directory path

/-- The parts of the directory that a path lies in, all given last part first. -/
def parentParts (reversed : List String) : List String :=
  (reversed.dropWhile (· == ".")).tail

theorem length_parentParts_lt {p : String} {ps : List String} :
    (parentParts (p :: ps)).length < (p :: ps).length := by
  have := (List.dropWhile_suffix (· == ".") (l := p :: ps)).length_le
  rw [parentParts, List.length_tail]
  simp only [List.length_cons] at this ⊢
  omega

end Path
end BackupVolume.FileTree
