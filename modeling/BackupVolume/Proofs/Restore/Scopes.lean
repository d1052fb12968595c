import BackupVolume.Proofs.Job.Policy
import BackupVolume.Proofs.Restore.Closing
import BackupVolume.Proofs.Restore.Reporting

/-! # What ends an extraction

Where a record cannot be decoded, that is a fault of the record, and the extraction goes on. Work on
a record fails only where nothing behind it can be trusted.
-/
namespace BackupVolume

namespace Extraction
variable {σ φ η : Type} [FileCreator φ η] {o : JobOptions} {filter : Selection.PathFilter}
  {j k : State φ η} {r : Record} {e : Failure}

theorem scope_of_close (h : close j = (k, .error e)) : e.scope = .job := by
  rw [close] at h
  split at h
  · cases h
  · next f _ =>
    rcases hf : FileCreator.finish j.work.creator f.handle f.attributes with ⟨c, fault | ⟨⟨⟩⟩⟩
    all_goals
      simp only [hf] at h
      cases h
    rfl

theorem scope_of_moveTo {f : OpenFile η} {address : Option Nat}
    (h : moveTo j f address = (k, .error e)) : e.scope = .job := by
  unfold moveTo at h
  split at h
  · cases h
  · split at h
    · cases h
    · split at h
      · cases h
        rfl
      · cases h

theorem scope_of_perform {action : Action} (h : perform o filter j action = (k, .error e)) :
    e.scope = .job := by
  cases action with
  | attributes a => cases h
  | write address data =>
    rw [perform, write] at h
    split at h
    · cases h
    · split at h
      · next hmove =>
        cases h
        exact scope_of_moveTo hmove
      · split at h
        · cases h
          rfl
        · cases h
  | nothing => cases h
  | fault f =>
    rw [perform] at h
    split at h <;> cases h

/-- Work on a record fails only where the extraction cannot go on. -/
theorem scope_of_handle (h : handle o filter j r = (k, .error e)) : e.scope = .job := by
  have hdecode {j : State φ η} (h : decode o filter j r = (k, .error e)) : e.scope = .job := by
    unfold decode at h
    rcases hd : j.work.decoder.decode r with ⟨d, x | action⟩
    · simp only [hd] at h
      cases h
      exact Decoder.scope_of_decode (congrArg Prod.snd hd)
    · simp only [hd] at h
      exact scope_of_perform h
  unfold handle at h
  split at h
  · split at h
    · next hclose =>
      cases h
      exact scope_of_close hclose
    · exact hdecode h
  · split at h
    · cases h
    · exact hdecode h

/-- An extraction is not aborted for a single record, nor for a single block if it is to proceed. -/
theorem mayEnd_run [BlockSource σ] {rules : Rules} {decoder : Decoder} {key : Option VolumeKey}
    {creator : φ} {source : σ} {a : Aborted}
    (h : (run o rules filter decoder key creator source).result = .error a) :
    a.cause.MayEnd o.proceed := by
  obtain ⟨j, s, x, hj⟩ : ∃ j s x, Job.run o.proceed rules (handle o filter)
    { creator, decoder } ({ source, verify := o.verifyChecksums, key } : VolumeReader σ)
      = (j, s, x) := ⟨_, _, _, rfl⟩
  rcases hclose : close j with ⟨k, closed⟩
  rw [run_eq hj hclose] at h
  rcases error_of_firstFailure (Job.cause_of_result h) with hjob | hclosing
  · rw [hjob] at hj
    rcases Job.mayEnd_of_run (fun _ _ _ _ hr => scope_of_handle hr) hj with hmay | hscope
    · exact hmay
    · exact Failure.mayEnd_of_job hscope o.proceed
  · refine Failure.mayEnd_of_job ?_ o.proceed
    simp only [List.mem_cons, List.not_mem_nil, or_false] at hclosing
    rcases hclosing with hclosed | hreleased
    · rw [← hclosed] at hclose
      exact scope_of_close hclose
    · obtain ⟨fault, hcause⟩ := exists_of_mapError hreleased
      rw [hcause]
      rfl

end Extraction
end BackupVolume
