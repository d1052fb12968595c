import BackupVolume.Proofs.Job.Ending
import BackupVolume.Restore.Extraction

/-! # Closing an extraction

When an extraction has gone through its source, the last file is closed and the source is released,
and what the decoder could not use is counted as well.
-/
namespace BackupVolume.Extraction
variable {σ φ η : Type} [BlockSource σ] [FileCreator φ η] {o : JobOptions} {rules : Rules}
  {filter : Selection.PathFilter} {decoder : Decoder} {key : Option VolumeKey} {creator : φ}
  {source : σ}

theorem run_eq {j k : State φ η} {reader : VolumeReader σ} {x : Except Failure JobStatus}
    {closed : Except Failure Unit}
    (h : Job.run o.proceed rules (handle o filter) { creator, decoder }
      { source, verify := o.verifyChecksums, key } = (j, reader, x))
    (hclose : close j = (k, closed)) :
    run o rules filter decoder key creator source =
      { source := (BlockSource.release reader.source).1
        creator := k.work.creator
        result := Job.result
          { k with
            counts := { k.counts with errors := k.counts.errors + k.work.decoder.stats.errors } }
          reader.stats
          (firstFailure x [closed, (BlockSource.release reader.source).2.mapError .device]) } := by
  simp only [run, h, hclose]

/-- What fails first is what an extraction is aborted with. -/
theorem exists_result_of_error {j : State φ η} {reader : VolumeReader σ} {e : Failure}
    (h : Job.run o.proceed rules (handle o filter) { creator, decoder }
      { source, verify := o.verifyChecksums, key } = (j, reader, .error e)) :
    ∃ found, (run o rules filter decoder key creator source).result = .error ⟨found, e⟩ := by
  rw [run_eq h rfl, firstFailure_error]
  exact ⟨_, rfl⟩

/-- An extraction that nothing stops goes through all findings of a volume. -/
theorem creator_run_of_readAll {fs : List Finding} {s : VolumeReader σ}
    (hc : rules.cancellation 0 none = false)
    (hr : ({ source, verify := o.verifyChecksums, key } : VolumeReader σ).readAll
      = (fs, s, .endOfData)) {j : State φ η}
    (hj : showAll (Job.visit o.proceed rules (handle o filter)) { work := { creator, decoder } } fs
      = (j, none)) :
    (run o rules filter decoder key creator source).creator = (close j).1.work.creator := by
  have hrun : Job.run o.proceed rules (handle o filter) { creator, decoder }
      ({ source, verify := o.verifyChecksums, key } : VolumeReader σ) = (j, s, .ok .terminated) :=
    Job.run_terminated_iff.mpr ⟨hc, by rw [hr]; exact hj, congrArg Prod.snd hr⟩
  exact congrArg Outcome.creator (run_eq hrun rfl)

end BackupVolume.Extraction
