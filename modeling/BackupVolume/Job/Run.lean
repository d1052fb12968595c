import BackupVolume.Job.Options
import BackupVolume.Job.Summary
import BackupVolume.Selection.Bootstrap
import BackupVolume.Volume.Traversal

/-! # Running a job over a volume

A job goes through a volume and works on the records that belong to it. Labels are passed over,
and so are records that the selector refuses. Damage is counted, and ends the job unless it is to
proceed. Between two findings the job may be canceled.
-/
namespace BackupVolume

/-- Whether a job is canceled, asked before every finding: how many findings went before, and the
record that was put to the selector last, if that was the finding before. -/
abbrev Cancellation := (pass : Nat) → (asked : Option Record) → Bool

def Cancellation.never : Cancellation := fun _ _ => false

structure Job (τ : Type) where
  work : τ
  counts : Counts := {}
  pass : Nat := 0

structure Rules where
  selector : Selector := .all
  cancellation : Cancellation := .never

inductive Halt where
  | canceled
  | failed (e : Failure)

namespace Job
variable {σ τ : Type}

def next (rules : Rules) (j : Job τ) (asked : Option Record) : Job τ × Option Halt :=
  let j := { j with pass := j.pass + 1 }
  (j, if rules.cancellation j.pass asked then some .canceled else none)

/-- Works on a record that belongs to the job, or passes over a finding. -/
def visit (proceed : Bool) (rules : Rules)
    (handle : Job τ → Record → Job τ × Except Failure Unit) (j : Job τ) :
    Finding → Job τ × Option Halt
  | .damage e =>
    let j := { j with counts := { j.counts with errors := j.counts.errors + 1 } }
    if proceed then j.next rules none else (j, some (.failed e))
  | .record r =>
    if r.isLabel then j.next rules none
    else if !rules.selector r then j.next rules (some r)
    else
      let j := { j with counts := { j.counts with records := j.counts.records + 1 } }
      match handle j r with
      | (j, .ok ()) => j.next rules (some r)
      | (j, .error e) => (j, some (.failed e))

def statusOf : Ending Halt → Except Failure JobStatus
  | .endOfData => .ok .terminated
  | .stopped .canceled => .ok .canceled
  | .stopped (.failed e) => .error e
  | .unreadable e => .error e

def run [BlockSource σ] (proceed : Bool) (rules : Rules)
    (handle : Job τ → Record → Job τ × Except Failure Unit) (work : τ)
    (reader : VolumeReader σ) : Job τ × VolumeReader σ × Except Failure JobStatus :=
  let j : Job τ := { work }
  if rules.cancellation 0 none then (j, reader, .ok .canceled)
  else
    let (j, reader, ending) := reader.traverse (visit proceed rules handle) j
    (j, reader, statusOf ending)

def summary (j : Job τ) (stats : ReaderStats) (status : JobStatus) : Summary :=
  { status
    files := j.counts.files
    records := j.counts.records
    errors := j.counts.errors
    blocks := stats.blocks
    corruptBlocks := stats.corruptBlocks
    bytes := j.counts.bytes
    seeks := j.counts.seeks }

def result (j : Job τ) (stats : ReaderStats) : Except Failure JobStatus → Except Aborted Summary
  | .ok status => .ok (j.summary stats status)
  | .error cause => .error ⟨j.summary stats .failed, cause⟩

end Job

/-- The first failure of several steps, all of which are taken. -/
def firstFailure (outcome : Except Failure JobStatus) (closing : List (Except Failure Unit)) :
    Except Failure JobStatus :=
  closing.foldl (fun r c => r.bind fun status => c.map fun _ => status) outcome

end BackupVolume
