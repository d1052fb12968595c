import BackupVolume.CommandLine.Contents
import BackupVolume.CommandLine.Copy
import BackupVolume.CommandLine.Extract

/-! # The program

From the words of a command line to what is printed and what becomes of the files.
-/
namespace BackupVolume.CommandLine

structure Report where
  exitCode : UInt8 := 0
  lines : List String := []
  summary : Option Summary := none
  complaints : List String := []
  tree : FileTree

namespace Report

def output (r : Report) (started : Int) (elapsed : Nat) : List String :=
  r.lines ++ r.summary.elim [] fun s => s.report started elapsed

end Report

def complaint (message : String) : String := programName ++ ": " ++ message

def exitCodeOf (s : Summary) : UInt8 := if s.status = .failed then 1 else 0

def report (task : Task (Contents × Summary)) (tree : FileTree) : Report :=
  match (task tree).run with
  | (.ok (c, s), tree) =>
    { exitCode := exitCodeOf s, lines := c.lines.toList, summary := some s,
      complaints := c.complaints.toList.map complaint, tree }
  | (.error trouble, tree) =>
    let summary := match trouble with
      | .aborted a => some a.summary
      | _ => none
    { exitCode := 1, summary, complaints := [complaint trouble.message], tree }

/-- What surrounds a run: the files, the present second and what sealing starts with. -/
structure Environment where
  tree : FileTree
  now : Nat
  nonce : Nonce

def Request.run (e : Environment) : Request → Task (Contents × Summary)
  | .extract r => do return ({}, ← r.run)
  | .copy r => do return ({}, ← r.run (UInt32.ofNat e.now) e.nonce)
  | .list r => r.run

def run (e : Environment) (arguments : List String) : Report :=
  match Request.ofArguments arguments with
  | .ok r => report (r.run e) e.tree
  | .error (.help lines) => { lines, tree := e.tree }
  | .error (.misuse u) => { exitCode := 2, complaints := ["error: " ++ u.message], tree := e.tree }

end BackupVolume.CommandLine
