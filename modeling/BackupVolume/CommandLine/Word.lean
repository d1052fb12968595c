/-! # Words of a command line

A word that starts with a hyphen is an option, or several options of one letter each; two hyphens
alone end the options. A single hyphen is a plain word.
-/
namespace BackupVolume.CommandLine

inductive Word where
  | plain (text : String)
  | option (name : String) (value : Option String)
  | letters (cs : List Char)
  | endOfOptions
  deriving DecidableEq

namespace Word

def attached? (cs : List Char) : Option String :=
  match cs.dropWhile (· != '=') with
  | [] => none
  | _ :: value => some (String.ofList value)

def ofString (s : String) : Word :=
  match s.toList with
  | ['-', '-'] => .endOfOptions
  | '-' :: '-' :: cs => .option (String.ofList (cs.takeWhile (· != '='))) (attached? cs)
  | '-' :: c :: cs => .letters (c :: cs)
  | _ => .plain s

def isPlain : Word → Bool
  | plain _ => true
  | _ => false

end Word
end BackupVolume.CommandLine
