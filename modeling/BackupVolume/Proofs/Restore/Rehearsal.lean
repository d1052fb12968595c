import BackupVolume.Proofs.Job.Course
import BackupVolume.Proofs.Restore.Closing

/-! # Dry runs

A dry run decodes the records that belong to the job and counts what they ask for. It opens no file
and makes no call on the creator: without one it would come to the same.
-/
namespace BackupVolume

def Counts.rehearsed (filter : Selection.PathFilter) (c : Counts) : Action → Counts
  | .attributes a => if filter.accepts a.name then { c with files := c.files + 1 } else c
  | .write _ data => { c with bytes := c.bytes + data.length }
  | .nothing | .fault _ => c

/-- Files and octets are added, and nothing else changes. -/
theorem Counts.rehearsed_spec (filter : Selection.PathFilter) (c : Counts) (action : Action) :
    (c.rehearsed filter action).records = c.records ∧
      (c.rehearsed filter action).errors = c.errors ∧
      c.files ≤ (c.rehearsed filter action).files ∧
      c.bytes ≤ (c.rehearsed filter action).bytes := by
  unfold rehearsed
  split
  · split
    · exact ⟨rfl, rfl, Nat.le_succ _, Nat.le_refl _⟩
    · exact ⟨rfl, rfl, Nat.le_refl _, Nat.le_refl _⟩
  · exact ⟨rfl, rfl, Nat.le_refl _, Nat.le_add_right _ _⟩
  · exact ⟨rfl, rfl, Nat.le_refl _, Nat.le_refl _⟩
  · exact ⟨rfl, rfl, Nat.le_refl _, Nat.le_refl _⟩

namespace Extraction
variable {σ φ η : Type} [FileCreator φ η] {o : JobOptions} (filter : Selection.PathFilter)

def rehearse (j : Job Decoder) (r : Record) :
    Job Decoder × Except Failure Unit :=
  match j.work.decode r with
  | (work, .error e) => ({ j with work }, .error e)
  | (work, .ok action) => ({ j with work, counts := j.counts.rehearsed filter action }, .ok ())

def idle (creator : φ) (decoder : Decoder) : Extraction φ η := { creator, decoder }

theorem perform_idle (ho : o.dryRun = true) (creator : φ) (j : Job Decoder) (action : Action) :
    perform o filter (j.map (idle creator)) action
      = ({ j with counts := j.counts.rehearsed filter action }.map (idle creator), .ok ()) := by
  cases action with
  | attributes a =>
    simp only [perform, openFile, ho, if_true, Counts.rehearsed]
    cases filter.accepts a.name <;> rfl
  | write address data => rfl
  | nothing => rfl
  | fault f =>
    rw [perform]
    split <;> rfl

/-- A dry run has no file open at any time: it decodes and counts. -/
theorem handle_idle (ho : o.dryRun = true) (creator : φ) (j : Job Decoder) (r : Record) :
    handle o filter (j.map (idle creator)) r
      = ((rehearse filter j r).1.map (idle creator), (rehearse filter j r).2) := by
  have hclose : close (j.map (idle creator)) = (j.map (idle creator), .ok ()) := rfl
  have hdecode : decode o filter (j.map (idle creator)) r
      = ((rehearse filter j r).1.map (idle creator), (rehearse filter j r).2) := by
    rw [decode, rehearse]
    have hwork : (j.map (idle creator) : State φ η).work.decoder = j.work := rfl
    rw [hwork]
    rcases j.work.decode r with ⟨work, e | action⟩
    · rfl
    · exact perform_idle filter ho creator { j with work } action
  rw [handle, hclose, ho]
  simp only [Bool.not_true, Bool.false_and, Bool.false_eq_true, if_false, hdecode, ite_self]

def rehearsal [BlockSource σ] (o : JobOptions) (rules : Rules) (decoder : Decoder)
    (key : Option VolumeKey) (source : σ) : σ × Except Aborted Summary :=
  let reader : VolumeReader σ := { source, verify := o.verifyChecksums, key }
  let (j, reader, outcome) := Job.run o.proceed rules (rehearse filter) decoder reader
  let (source, released) := BlockSource.release reader.source
  let counts := { j.counts with errors := j.counts.errors + j.work.stats.errors }
  (source,
    { j with counts }.result reader.stats (firstFailure outcome [released.mapError .device]))

/-- A dry run leaves the creator as it is, and does not depend on it. -/
theorem run_dryRun [BlockSource σ] (ho : o.dryRun = true) (rules : Rules) (decoder : Decoder)
    (key : Option VolumeKey) (creator : φ) (source : σ) :
    run o rules filter decoder key creator source =
      { source := (rehearsal filter o rules decoder key source).1
        creator
        result := (rehearsal filter o rules decoder key source).2 } := by
  have hrun := Job.run_map o.proceed rules (idle creator) (handle_idle filter ho creator) decoder
    ({ source, verify := o.verifyChecksums, key } : VolumeReader σ)
  rw [idle] at hrun
  rcases hj : Job.run o.proceed rules (rehearse filter) decoder
    { source, verify := o.verifyChecksums, key } with ⟨j, reader, x⟩
  rw [hj] at hrun
  have hfirst : firstFailure x [.ok (), (BlockSource.release reader.source).2.mapError .device]
      = firstFailure x [(BlockSource.release reader.source).2.mapError .device] := by
    cases x <;> rfl
  have hclose : close (j.map (idle creator)) = (j.map (idle creator), .ok ()) := rfl
  rw [run_eq hrun hclose, hfirst]
  simp only [rehearsal, hj]
  cases firstFailure x [(BlockSource.release reader.source).2.mapError .device] <;> rfl

end Extraction
end BackupVolume
