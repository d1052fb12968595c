import BackupVolume.Proofs.Job.Ending
import BackupVolume.Proofs.Migration.Fidelity
import BackupVolume.Proofs.Migration.Handling
import BackupVolume.Proofs.Restore.Origins
import BackupVolume.Proofs.Volume.Failing
import BackupVolume.Proofs.Volume.Shelving

/-! # Migrations that do not come to their end

A migration may be canceled, may fail to read its source, or may find that its sink takes no more.
What it leaves can be read in every case: it is a volume of the first of the records that were
passed to the writer, and of all of them if nothing but reading had failed.
-/
namespace BackupVolume

theorem Failure.not_isOfReading {e : Failure} (hs : e.scope = .job)
    (hd : ∀ fault, e ≠ .device fault) : ¬e.IsOfReading := by
  rintro (⟨h, -⟩ | ⟨fault, h⟩)
  · cases hs.symm.trans h
  · exact hd fault h

theorem Failure.IsOfWriting.not_isOfReading {e : Failure} (h : e.IsOfWriting) :
    ¬e.IsOfReading := by
  cases h with
  | unsealed =>
    rintro (⟨-, h⟩ | ⟨fault, h⟩)
    · exact h rfl
    · cases h
  | refused => exact Failure.not_isOfReading rfl nofun

namespace VolumeWriter
variable {κ : Type} [BlockSink κ] {w v : VolumeWriter κ} {e : Failure}

/-- A writer does not fail at reading. -/
theorem not_isOfReading_of_store {o left : Outstanding} (h : w.store o = (v, left, .error e)) :
    ¬e.IsOfReading := by
  rcases error_of_store h with hwriting | ⟨problem, rfl⟩
  · exact hwriting.not_isOfReading
  · exact Failure.not_isOfReading rfl nofun

end VolumeWriter

namespace Migration
variable {σ κ γ : Type} [BlockSink κ] [Catalog γ]

section Ended
variable {stored : κ → List Bytes} {start : Shelf} {key : Option VolumeKey} {session : Session}
  {o : JobOptions} {m v : Migration κ γ} {rs : List Record}

/-- What migrations can store: first pieces are told from later ones, and the length of a record is
announced in thirty-two bits. -/
def AllStorable (rs : List Record) : Prop :=
  ∀ r ∈ rs, 0 < r.tag.raw ∧ r.payload.length < 2 ^ 32

/-- One more record is passed to the writer, unless the catalog refuses it, and is held as far as
the sink takes blocks. Reading is not what fails. -/
theorem passed_handle (hs : BlockSink.Stores stored) {j k : State κ γ} {qs : List Record}
    (hp : Passed o session m rs qs j.work)
    (hj : VolumeWriter.HoldsAll stored start key session j.work.writer qs) {r : Record}
    (ht : 0 < r.tag.raw) (hl : r.payload.length < 2 ^ 32) {x : Except Failure Unit}
    (h : handle o session j r = (k, x)) :
    ∃ qs', Passed o session m (rs ++ [r]) qs' k.work ∧
      VolumeWriter.HoldsFirst stored start key session k.work.writer qs' ∧
      (x = .ok () → qs' = qs ++ [r.inSession session] ∧
        VolumeWriter.HoldsAll stored start key session k.work.writer qs') ∧
      ∀ e, x = .error e → ¬e.IsOfReading := by
  obtain ⟨hwriter, -, hcatalog⟩ := keeps_catalogRecord o j (r.inSession session)
  rcases handle_cases o session j r with
    ⟨n, e, hentry, hfails, -⟩ | ⟨n, l, u, left, y, hentry, hwrite, hdone, hwork, -⟩
  · rw [hfails] at h
    cases h
    rw [hentry] at hwriter hcatalog
    refine ⟨qs, hp.refused hentry, ?_, (fun hx => by cases hx), ?_⟩
    · rw [hwriter]
      exact hj.first
    · rintro e ⟨rfl⟩
      obtain ⟨fault, rfl⟩ := hcatalog _ rfl
      exact Failure.not_isOfReading rfl fun _ hd => by cases hd
  · rw [hdone] at h
    cases h
    rw [hentry] at hwriter
    rw [← hwriter] at hj
    obtain ⟨hfirst, hall⟩ := hj.writeRecord hs (r := r.inSession session) ht hl hwrite
    have hpassed := hp.written hentry
    rw [hwrite, ← hwork] at hpassed
    refine ⟨_, hpassed, ?_, fun hx => ⟨rfl, ?_⟩, ?_⟩
    · rw [hwork]
      exact hfirst
    · rw [hwork]
      exact hall hx
    · rintro e rfl
      exact VolumeWriter.not_isOfReading_of_store hwrite

theorem holdsAll_of_succeeded (hs : BlockSink.Stores stored)
    (hm : VolumeWriter.HoldsAll stored start key session m.writer [])
    (h : Job.Succeeded (handle o session) m rs v) (hr : AllStorable rs) :
    Passed o session m rs (rs.map (Record.inSession session)) v ∧
      VolumeWriter.HoldsAll stored start key session v.writer
        (rs.map (Record.inSession session)) := by
  induction h with
  | none => exact ⟨.none, hm⟩
  | @more rs r j k _ hhandle ih =>
    obtain ⟨hpassed, hholds⟩ := ih fun x hx => hr x (by simp [hx])
    obtain ⟨ht, hl⟩ := hr r (by simp)
    obtain ⟨qs, hnext, -, hall, -⟩ := passed_handle hs hpassed hholds ht hl hhandle
    obtain ⟨rfl, hheld⟩ := hall rfl
    rw [List.map_append]
    exact ⟨hnext, hheld⟩

/-- However a migration ends, its writer holds the first pieces of the records that it was passed,
and all pieces of all records if nothing but reading has failed. -/
theorem holdsFirst_of_ended (hs : BlockSink.Stores stored)
    (hm : VolumeWriter.HoldsAll stored start key session m.writer [])
    {x : Except Failure JobStatus} (h : Job.Ended (handle o session) m rs v x)
    (hr : AllStorable rs) :
    ∃ qs, Passed o session m rs qs v ∧
      VolumeWriter.HoldsFirst stored start key session v.writer qs ∧
      ((∀ e, x = .error e → e.IsOfReading) → qs = rs.map (Record.inSession session) ∧
        VolumeWriter.HoldsAll stored start key session v.writer qs) := by
  cases h with
  | finished status hsucceeded =>
    obtain ⟨hpassed, hholds⟩ := holdsAll_of_succeeded hs hm hsucceeded hr
    exact ⟨_, hpassed, hholds.first, fun _ => ⟨rfl, hholds⟩⟩
  | unread hsucceeded =>
    obtain ⟨hpassed, hholds⟩ := holdsAll_of_succeeded hs hm hsucceeded hr
    exact ⟨_, hpassed, hholds.first, fun _ => ⟨rfl, hholds⟩⟩
  | @failed rs r j k e hsucceeded hhandle =>
    obtain ⟨hpassed, hholds⟩ :=
      holdsAll_of_succeeded hs hm hsucceeded fun x hx => hr x (by simp [hx])
    obtain ⟨ht, hl⟩ := hr r (by simp)
    obtain ⟨qs, hnext, hfirst, -, hnot⟩ := passed_handle hs hpassed hholds ht hl hhandle
    exact ⟨qs, hnext, hfirst, fun hreading => absurd (hreading e rfl) (hnot e rfl)⟩

end Ended

/-- Whatever ends a migration, both devices are released, and the blocks that its sink has stored
are numbered one after another. From them the first of the records are read that were passed to the
writer, without a failure; and all that the migration has counted, if it was canceled, came to the
end or failed at reading, and the last block could be flushed. -/
theorem leaves_first_run [BlockSource σ] (σ' : Type) [BlockSource σ'] {stored : κ → List Bytes}
    (hs : BlockSink.Stores stored) (o : JobOptions) (hb : o.blockSize ≤ maxBlockLength)
    (rules : Rules) (sourceKey sinkKey : Option VolumeKey) (nonce : Nonce) (session : Session)
    (source : σ)
    (ht : ∀ r ∈ (Finding.records ({ source, verify := o.verifyChecksums, key := sourceKey } :
      VolumeReader σ).readAll.1).filter rules.admits, 0 < r.tag.raw) (sink : κ) (catalog : γ) :
    let reader : VolumeReader σ := { source, verify := o.verifyChecksums, key := sourceKey }
    let admitted := (Finding.records reader.readAll.1).filter rules.admits
    let start : Migration κ γ :=
      { writer := .create sink o.blockSize session o.blockChecksums sinkKey nonce, catalog }
    let loop := Job.run o.proceed rules (handle o session) start reader
    let writer := loop.1.work.writer
    let flushing := loop.2.2.isOk || BlockSink.canWrite writer.sink
    let closed := if flushing then writer.flush.1.sink else writer.sink
    let outcome := run o rules sourceKey sinkKey nonce session source sink catalog
    outcome.source = (BlockSource.release loop.2.1.source).1 ∧
      outcome.sink = (BlockSink.release closed).1 ∧
      ∃ rs passed found, rs <+: admitted ∧ (summaryOf outcome.result).records = rs.length ∧
        Passed o session start rs passed loop.1.work ∧
        VolumeWriter.LeavesFirst σ' sinkKey session (stored sink) (stored closed) passed found ∧
        ((∀ e, loop.2.2 = .error e → e.IsOfReading) → flushing = true →
          writer.flush.2 = .ok () →
            found = passed ∧ passed = rs.map (Record.inSession session)) := by
  intro reader admitted start loop writer flushing closed outcome
  obtain ⟨rs, hrs, hended, hcount⟩ := Job.exists_ended (records_handle o session)
    (rfl : Job.run o.proceed rules (handle o session) start reader = loop)
  have hstorable := VolumeReader.isStorable_readAll (r := reader)
    (fun f hf => by cases hf) rfl
  have hgood : AllStorable rs := by
    intro r hr
    have hadmitted := hrs.subset hr
    exact ⟨ht r hadmitted, (hstorable r (List.mem_filter.mp hadmitted).1).2⟩
  have hstart : VolumeWriter.HoldsAll stored ⟨stored sink⟩ sinkKey session start.writer [] :=
    VolumeWriter.holdsAll_create stored sink hb session o.blockChecksums sinkKey nonce
  obtain ⟨passed, hpassed, hfirst, hall⟩ := holdsFirst_of_ended hs hstart hended hgood
  have hsource : outcome.source = (BlockSource.release loop.2.1.source).1 := rfl
  have hsink : outcome.sink = (BlockSink.release closed).1 := by
    have hclosed : closed = (if flushing then writer.flush else (writer, .ok ())).1.sink := by
      simp only [closed]
      split <;> rfl
    rw [hclosed]
    rfl
  have hsummary : (summaryOf outcome.result).records = rs.length := by
    rw [← hcount]
    exact Job.records_summaryOf_result _ _ _
  refine ⟨hsource, hsink, rs, passed, ?_⟩
  by_cases hflushing : flushing = true
  · have hclosed : closed = writer.flush.1.sink := if_pos hflushing
    rcases hf : writer.flush with ⟨v, x⟩
    rw [hclosed, hf]
    by_cases hwhole : (∀ e, loop.2.2 = .error e → e.IsOfReading) ∧ x = .ok ()
    · obtain ⟨hreading, rfl⟩ := hwhole
      obtain ⟨hwritten, hheld⟩ := hall hreading
      have hempty := VolumeWriter.isEmpty_of_flush hf
      exact ⟨passed, hrs, hsummary, hpassed, (hheld.flushed hs hf).leaves σ' hempty,
        fun _ _ _ => ⟨rfl, hwritten⟩⟩
    · obtain ⟨found, hleaves⟩ := (hfirst.flushed hs hf).leaves σ'
      exact ⟨found, hrs, hsummary, hpassed, hleaves, fun hreading _ hx =>
        absurd ⟨hreading, hx⟩ hwhole⟩
  · have hclosed : closed = writer.sink := if_neg hflushing
    rw [hclosed]
    obtain ⟨found, hleaves⟩ := hfirst.leaves σ'
    exact ⟨found, hrs, hsummary, hpassed, hleaves, fun _ hf => absurd hf hflushing⟩

theorem stores_memoryVolume : BlockSink.Stores fun v : MemoryVolume => v.blocks.toList where
  taken {k l b} h := by
    simp only [BlockSink.write, MemoryVolume.write] at h
    split at h
    · cases h
      exact Array.toList_push
    · cases h
  refused {k l b e} h := by
    simp only [BlockSink.write, MemoryVolume.write] at h
    split at h
    · cases h
    · cases h
      rfl

/-- A migration that is canceled between two records leaves a copy of the first one. -/
theorem leaves_first_run_memory :
    let source : MemoryVolume := .ofBlocks "volume" [Extraction.firstBlock]
    let outcome := run {} { cancellation := fun _ asked => asked.isSome } none none ⟨0⟩ ⟨7, 9⟩ source
      ({ name := "new" } : MemoryVolume) NoCatalog.mk
    let copies := [(Extraction.describing 1 49 97).inSession ⟨7, 9⟩]
    outcome.source.isReleased = true ∧ outcome.sink.isReleased = true ∧
      (∃ summary, outcome.result = .ok summary ∧ summary.status = .canceled ∧
        summary.records = 1) ∧
      VolumeWriter.LeavesFirst MemoryVolume none ⟨7, 9⟩ [] outcome.sink.blocks.toList copies
        copies := by
  intro source outcome copies
  let rules : Rules := { cancellation := fun _ asked => asked.isSome }
  let start : Migration MemoryVolume NoCatalog :=
    { writer := .create { name := "new" } defaultBlockSize ⟨7, 9⟩ true none ⟨0⟩
      catalog := NoCatalog.mk }
  let reader : VolumeReader MemoryVolume := { source }
  obtain ⟨s, hread⟩ := Extraction.readAll_firstBlock
  have hadmitted : (Finding.records reader.readAll.1).filter rules.admits
      = [Extraction.describing 1 49 97, Extraction.filling 1 [1] 0] := by
    simp only [reader, source, hread]
    decide +kernel
  have haccepts : BlockSink.AcceptsAll ({ name := "new" } : MemoryVolume) :=
    MemoryVolume.acceptsAll rfl
  have hnew : Copied {} { name := "new" } none ⟨7, 9⟩ start [] :=
    copied_create {} _ (by decide) ⟨7, 9⟩ true none ⟨0⟩ commitsAll_noCatalog
  obtain ⟨k, hk, ⟨-, ps, hholds, -⟩, hcount⟩ :=
    hnew.handle (j := { work := start, counts := { records := 1 } }) haccepts
      (r := Extraction.describing 1 49 97) (by decide) (by decide)
  have hshown : showAll (Job.visit false rules (handle {} ⟨7, 9⟩)) { work := start }
      reader.readAll.1 = ({ k with pass := k.pass + 1 }, some .canceled) := by
    simp only [reader, source, hread, showAll]
    rw [Job.visit_of_admits rfl, hk]
    rfl
  obtain ⟨t, x, hrun, hend⟩ :=
    Job.run_showAll false (handle {} ⟨7, 9⟩) (show rules.cancellation 0 none = false from rfl) start
      reader
  rw [hshown] at hrun hend
  obtain rfl : x = .ok .canceled := hend
  obtain ⟨v, hflush, -⟩ := hholds.flush haccepts
  obtain ⟨hsource, hsink, rs, passed, found, hrs, hsummary, -, hleaves, hall⟩ :=
    leaves_first_run MemoryVolume stores_memoryVolume {} (by decide) rules none none ⟨0⟩ ⟨7, 9⟩
      source (by rw [hadmitted]; decide) ({ name := "new" } : MemoryVolume) NoCatalog.mk
  obtain ⟨rfl, rfl⟩ := hall (by rw [hrun]; exact fun e he => by cases he) (by rw [hrun]; rfl)
    (by rw [hrun, hflush])
  have hflushed : flushed k.work.writer (.ok .canceled) = (v, .ok ()) := hflush
  have hended : ended k.work.writer t (.ok .canceled) = .ok .canceled :=
    ended_of_ok (by rw [hflushed]) rfl rfl
  have hresult : outcome.result
      = .ok (Job.summary { k with pass := k.pass + 1 } t.stats .canceled) := by
    simp only [outcome]
    rw [run_eq hrun, hended]
    rfl
  have hcopied : k.counts.records = 1 := hcount
  have hworked : rs = [Extraction.describing 1 49 97] := by
    rw [hresult] at hsummary
    rw [hadmitted, List.prefix_iff_eq_take, ← hsummary] at hrs
    rw [hrs]
    exact congrArg (List.take · _) hcopied
  rw [hworked] at hleaves
  refine ⟨?_, ?_, ⟨_, hresult, rfl, hcopied⟩, ?_⟩
  · rw [hsource]
    rfl
  · rw [hsink]
    rfl
  · rw [hsink]
    exact hleaves

end Migration
end BackupVolume
