import BackupVolume.Proofs.Migration.Closing
import BackupVolume.Proofs.Migration.Handling
import BackupVolume.Proofs.Volume.Lengths

/-! # The block size of a migration

Options that have been checked bound the length of every block that a migration hands to its sink,
but with a key the bound is the block size only where the smallest sealed block fits into it.
-/
namespace BackupVolume

theorem JobOptions.blockSize_of_validate {o : JobOptions} (h : o.validate = .ok ()) :
    leastBlockSize ≤ o.blockSize ∧ o.blockSize ≤ maxBlockLength := by
  rw [validate] at h
  split at h
  · cases h
  · next hbounds =>
    simp only [Bool.or_eq_true, decide_eq_true_eq, not_or, Nat.not_lt] at hbounds
    exact hbounds

theorem FileSink.write_fixed {f : FileSink} {size : Nat} (hm : f.mode = .fixed size)
    (hr : f.isReleased = false) (block : Bytes) :
    (BlockSink.write f block).2 = .ok () ↔ block.length ≤ size := by
  simp only [BlockSink.write, write, hr, stored, hm, Bool.false_eq_true, if_false]
  by_cases h : size < block.length
  · simp only [if_pos h, Nat.not_le.mpr h, iff_false]
    intro hok
    cases hok
  · simp only [if_neg h, Nat.not_lt.mp h]

namespace Migration

section Unrecorded
variable {κ γ : Type} [BlockSink κ] [Catalog γ]

def unrecorded (m : Migration (Recorder κ) γ) : Migration κ γ :=
  { m with writer := m.writer.unrecorded }

omit [BlockSink κ] in
theorem catalogRecord_unrecorded (o : JobOptions) (j : State (Recorder κ) γ) (r : Record) :
    catalogRecord o (j.map unrecorded) r
      = ((catalogRecord o j r).1.map unrecorded, (catalogRecord o j r).2) := by
  rw [catalogRecord, catalogRecord]
  rcases CatalogEntry.ofRecord r with e | _ | e
  · rfl
  · rfl
  · simp only [enter]
    split <;> rfl

theorem handle_unrecorded (o : JobOptions) (session : Session) (j : State (Recorder κ) γ)
    (r : Record) : handle o session (j.map unrecorded) r
      = ((handle o session j r).1.map unrecorded, (handle o session j r).2) := by
  refine handle_map (catalogRecord_unrecorded o) (fun m r => ?_) session j r
  have hstore := VolumeWriter.unrecorded_store m.writer (.whole r)
  simp only [unrecorded, VolumeWriter.writeRecord, hstore]
  exact ⟨trivial, trivial⟩

omit [Catalog γ] in
theorem flushed_unrecorded (w : VolumeWriter (Recorder κ)) (x : Except Failure JobStatus) :
    flushed w.unrecorded x = ((flushed w x).1.unrecorded, (flushed w x).2) := by
  have hcan : BlockSink.canWrite w.unrecorded.sink = BlockSink.canWrite w.sink := rfl
  rw [flushed, flushed, hcan]
  split
  · exact VolumeWriter.unrecorded_flush w
  · rfl

/-- A migration does not notice a recorder. -/
theorem run_unrecorded {σ : Type} [BlockSource σ] (o : JobOptions) (rules : Rules)
    (sourceKey sinkKey : Option VolumeKey) (nonce : Nonce) (session : Session) (source : σ)
    (sink : κ) (catalog : γ) :
    let recorded := run o rules sourceKey sinkKey nonce session source
      (⟨sink, []⟩ : Recorder κ) catalog
    run o rules sourceKey sinkKey nonce session source sink catalog
      = ⟨recorded.source, recorded.sink.sink, recorded.catalog, recorded.result⟩ := by
  intro recorded
  obtain ⟨j, reader, x, hloop⟩ : ∃ j reader x, Job.run o.proceed rules (handle o session)
      ({ writer := .create ⟨sink, []⟩ o.blockSize session o.blockChecksums sinkKey nonce, catalog } :
        Migration (Recorder κ) γ)
      ({ source, verify := o.verifyChecksums, key := sourceKey } : VolumeReader σ)
        = (j, reader, x) := ⟨_, _, _, rfl⟩
  have hplain : Job.run o.proceed rules (handle o session)
      ({ writer := .create sink o.blockSize session o.blockChecksums sinkKey nonce, catalog } :
        Migration κ γ)
      ({ source, verify := o.verifyChecksums, key := sourceKey } : VolumeReader σ)
        = (j.map unrecorded, reader, x) :=
    (Job.run_map o.proceed rules unrecorded (handle_unrecorded (γ := γ) o session) _ _).trans
      (by rw [hloop])
  have hflush : flushed (j.map unrecorded).work.writer x
      = ((flushed j.work.writer x).1.unrecorded, (flushed j.work.writer x).2) :=
    flushed_unrecorded j.work.writer x
  have hended : ended (j.map unrecorded).work.writer reader x = ended j.work.writer reader x := by
    rw [ended, ended, hflush]
    rfl
  simp only [recorded]
  rw [run_eq hplain, run_eq hloop, hended, hflush]
  rfl

end Unrecorded

/-- What the sink of a migration has been handed is what its writer hands over for some records. -/
theorem exists_handed_run {σ κ γ : Type} [BlockSource σ] [BlockSink κ] [Catalog γ] (o : JobOptions)
    (rules : Rules) (sourceKey sinkKey : Option VolumeKey) (nonce : Nonce) (session : Session)
    (source : σ) (sink : κ) (catalog : γ) :
    ∃ steps, (run o rules sourceKey sinkKey nonce session source (⟨sink, []⟩ : Recorder κ)
        catalog).sink.handed
      = ((VolumeWriter.create (⟨sink, []⟩ : Recorder κ) o.blockSize session o.blockChecksums sinkKey
        nonce).proceedAll steps).sink.handed := by
  obtain ⟨j, reader, x, hloop⟩ : ∃ j reader x, Job.run o.proceed rules (handle o session)
      ({ writer := .create ⟨sink, []⟩ o.blockSize session o.blockChecksums sinkKey nonce, catalog } :
        Migration (Recorder κ) γ)
      ({ source, verify := o.verifyChecksums, key := sourceKey } : VolumeReader σ)
        = (j, reader, x) := ⟨_, _, _, rfl⟩
  obtain ⟨rs, -, hworked⟩ := Job.exists_worked hloop
  obtain ⟨qs, hpassed⟩ := exists_passed hworked
  have hwriter := hpassed.writer
  rw [run_eq hloop, flushed]
  split
  · refine ⟨qs.map .record ++ [.flush], ?_⟩
    rw [VolumeWriter.proceedAll_append, ← hwriter]
    rfl
  · exact ⟨qs.map .record, by rw [← hwriter]; rfl⟩

/-- Checked options bound the blocks of every migration by the block size or by the smallest block
that its writer can fill, whichever is longer. No block exceeds the block size, and a file of blocks
of this size takes them all, exactly if nothing is sealed or the smallest sealed block fits. -/
theorem fits_run {κ : Type} [BlockSink κ] {o : JobOptions} (ho : o.validate = .ok ())
    (sinkKey : Option VolumeKey) (nonce : Nonce) (session : Session) (sink : κ) :
    let least := VolumeWriter.leastBlock o.blockChecksums sinkKey
    let writer := VolumeWriter.create (⟨sink, []⟩ : Recorder κ) o.blockSize session o.blockChecksums
      sinkKey nonce
    let handed := fun steps => (writer.proceedAll steps).sink.handed
    (∀ steps, ∀ bytes ∈ handed steps,
      bytes.length ≤ max o.blockSize least ∧ bytes.length ≤ maxBlockLength) ∧
    ((∀ steps, ∀ bytes ∈ handed steps, bytes.length ≤ o.blockSize ∧
        ∀ f : FileSink, f.mode = .fixed o.blockSize → f.isReleased = false →
          (BlockSink.write f bytes).2 = .ok ()) ↔
      sinkKey = none ∨ least ≤ o.blockSize) ∧
    ∀ (σ γ : Type) [BlockSource σ] [Catalog γ] (rules : Rules) (sourceKey : Option VolumeKey)
      (source : σ) (catalog : γ),
      let recorded := run o rules sourceKey sinkKey nonce session source (⟨sink, []⟩ : Recorder κ)
        catalog
      run o rules sourceKey sinkKey nonce session source sink catalog
          = ⟨recorded.source, recorded.sink.sink, recorded.catalog, recorded.result⟩ ∧
        ∃ steps, recorded.sink.handed = handed steps := by
  intro least writer handed
  obtain ⟨hleast, hmost⟩ := JobOptions.blockSize_of_validate ho
  have hsound : writer.IsSound :=
    VolumeWriter.isSound_create _ hmost session o.blockChecksums sinkKey nonce
  have hplanned : VolumeWriter.overheadOf writer.draft.options writer.key + writer.draft.capacity
      = max o.blockSize least :=
    VolumeWriter.overhead_add_capacity _ o.blockSize session o.blockChecksums sinkKey nonce
  have hbound (steps : List WriterStep) : ∀ bytes ∈ handed steps,
      bytes.length ≤ max o.blockSize least := by
    have hnew : VolumeWriter.Bounded (max o.blockSize least) writer :=
      ⟨hsound, Nat.le_of_eq hplanned, fun _ hb => by cases hb⟩
    exact (hnew.proceedAll steps).handed
  refine ⟨fun steps bytes hb => ⟨hbound steps bytes hb, ?_⟩, ⟨fun hall => ?_, fun hfits => ?_⟩,
    fun σ γ _ _ rules sourceKey source catalog => ⟨?_, ?_⟩⟩
  · have hle := VolumeWriter.leastBlock_le o.blockChecksums sinkKey
    exact Nat.le_trans (hbound steps bytes hb) (Nat.max_le.mpr ⟨hmost, hle⟩)
  · obtain ⟨r, bytes, hb, hlength⟩ := VolumeWriter.exists_full hsound rfl
    rw [hplanned] at hlength
    exact .inr (Nat.le_trans (Nat.le_max_right ..) (hlength ▸ (hall _ bytes hb).1))
  · have hlong : least ≤ o.blockSize := by
      rcases hfits with hnone | hfits
      · have hle := VolumeWriter.leastBlock_none_le o.blockChecksums
        simp only [least, hnone]
        exact Nat.le_trans hle hleast
      · exact hfits
    intro steps bytes hb
    have hle : bytes.length ≤ o.blockSize := Nat.max_eq_left hlong ▸ hbound steps bytes hb
    exact ⟨hle, fun f hmode hopen => (FileSink.write_fixed hmode hopen bytes).mpr hle⟩
  · exact run_unrecorded o rules sourceKey sinkKey nonce session source sink catalog
  · exact exists_handed_run o rules sourceKey sinkKey nonce session source sink catalog

/-- With a key, blocks of 73 octets have just the room for the smallest record. -/
theorem fits_run_sealed :
    let o : JobOptions := { blockSize := 73 }
    o.validate = .ok () ∧
    ∀ steps, ∀ bytes ∈ ((VolumeWriter.create (⟨{ name := "new" }, []⟩ : Recorder MemoryVolume)
      o.blockSize ⟨7, 9⟩ o.blockChecksums (some ⟨List.replicate 32 1, rfl⟩)
        ⟨0⟩).proceedAll steps).sink.handed, bytes.length ≤ 73 := by
  intro o
  have ho : o.validate = .ok () := rfl
  obtain ⟨-, hfits, -⟩ := fits_run ho (some ⟨List.replicate 32 1, rfl⟩) ⟨0⟩ ⟨7, 9⟩
    ({ name := "new" } : MemoryVolume)
  exact ⟨ho, fun steps bytes hb => (hfits.mpr (.inr (by decide)) steps bytes hb).1⟩

/-- With a key, a record of one octet in blocks of 72 octets makes a block of 73, which a file of
such blocks refuses. -/
theorem refuses_smallest_sealed :
    let o : JobOptions := { blockSize := 72 }
    let writer := VolumeWriter.create (⟨{ name := "new" }, []⟩ : Recorder MemoryVolume) o.blockSize
      ⟨7, 9⟩ o.blockChecksums (some ⟨List.replicate 32 1, rfl⟩) ⟨0⟩
    let file : FileSink := { name := "new", mode := .fixed o.blockSize }
    o.validate = .ok () ∧
    ∃ bytes ∈ (writer.proceedAll [.record ⟨1, ⟨2⟩, [1], {}, 0⟩, .flush]).sink.handed,
      bytes.length = 73 ∧ (BlockSink.write file bytes).2 ≠ .ok () := by
  intro o writer file
  let r : Record := ⟨1, ⟨2⟩, [1], {}, 0⟩
  have hsound : writer.IsSound := VolumeWriter.isSound_create _ (by decide) ⟨7, 9⟩ true _ ⟨0⟩
  have hfacts : (writer.draft.pack (.whole r)).map (fun x =>
      (x.2.isComplete, x.1.used, x.1.holdsOnlyLabels, x.1.options))
        = some (true, 13, false, .checksum) := by decide +kernel
  obtain ⟨⟨d, left⟩, hpack, hd⟩ := Option.map_eq_some_iff.mp hfacts
  simp only [Prod.mk.injEq] at hd
  obtain ⟨hcomplete, hused, hlabels, hoptions⟩ := hd
  obtain ⟨raw, hraw⟩ := (hsound.pack hpack).block_ok
  have hlength := VolumeWriter.length_block (hsound.pack hpack) hraw
  simp only [hused, hlabels, hoptions] at hlength
  refine ⟨rfl, raw, VolumeWriter.mem_handed_of_pack hpack hcomplete hraw, hlength, fun hok => ?_⟩
  have hle := (FileSink.write_fixed (f := file) rfl rfl _).mp hok
  rw [hlength] at hle
  revert hle
  decide

end Migration
end BackupVolume
