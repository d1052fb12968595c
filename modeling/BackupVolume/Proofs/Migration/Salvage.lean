import BackupVolume.Proofs.Migration.Fidelity
import BackupVolume.Proofs.Volume.Recording

/-! # Damage stays where it is

Of a volume whose blocks are damaged or missing, a reader finds exactly the records that have no
piece in such a block. Every damaged block is told once, and nothing else is. A migration that
proceeds behind damage copies these records.
-/
namespace BackupVolume

theorem LoadedBlock.ne_record_of_load {verify : Bool} {key : Option VolumeKey} {raw : RawBlock}
    {e : Failure} (h : load verify key raw = .error e) (x : RecordError) : e ≠ .record x := by
  rw [load] at h
  rintro rfl
  repeat' split at h
  all_goals cases h

theorem ne_record_of_mem_refusals {verify : Bool} {key : Option VolumeKey} {raws : List RawBlock}
    {e : Failure} (h : e ∈ refusals verify key raws) (x : RecordError) : e ≠ .record x := by
  obtain ⟨raw, -, hraw⟩ := List.mem_filterMap.mp h
  split at hraw
  · cases hraw
  · next hload =>
    cases hraw
    exact LoadedBlock.ne_record_of_load hload x

/-- What a reader finds in the remains of a volume. -/
theorem VolumeReader.readAll_remains {σ : Type} [BlockSource σ] {key : Option VolumeKey}
    {session : Session} {bs : List Bytes} {ps : List Placement}
    (hq : ShowAll key 0 bs (ps.flatMap Placement.pieces)) (hp : ∀ p ∈ ps, p.IsSound session)
    {verify : Bool} {readerKey : Option VolumeKey} (hk : readerKey = key ∨ readerKey = none)
    {source left : σ} {raws : List RawBlock} (hy : BlockSource.Yields source raws left)
    (hr : Remains verify readerKey bs raws) :
    ∃ fs s, ({ source, verify, key := readerKey } : VolumeReader σ).readAll
        = (fs, s, .endOfData) ∧
      s.source = left ∧
      Finding.records fs = (ps.filter (Placement.survives (isReadable verify readerKey raws))).map
        (Placement.found session) ∧
      Finding.failures fs = refusals verify readerKey raws ∧
      s.stats.corruptBlocks = (refusals verify readerKey raws).length := by
  have hall := Assembler.meetAll_placements (isReadable verify readerKey raws) (a := {}) hp rfl
  obtain ⟨hrecords, hfailures, hcount⟩ :=
    recovers_remains (r := { source, verify, key := readerKey }) hq hr hk
      (fun i => by rw [Nat.zero_add]) hall.2
  refine ⟨_, _, readAll_yields rfl hy, ?_, hrecords, hfailures, ?_⟩
  · rw [afterAll, source_dropPending]
  · rw [afterAll, corruptBlocks_dropPending, hcount, Nat.zero_add]

namespace Migration
variable {κ ρ γ : Type} (σ σ' : Type) [BlockSink κ] [BlockSink ρ] [BlockSource σ] [BlockSource σ']
  [Catalog γ]

/-- Damage costs exactly the records that have a piece in a block that is refused or missing. Every
refused block is told once, no record is broken by its neighbours, and a migration that proceeds
copies all records that are left and that it is to copy. The length of a record is announced in
thirty-two bits. -/
theorem survivors_of_remains {sink : κ} (hs : BlockSink.AcceptsAll sink) (blockSize : Nat)
    (hb : blockSize ≤ maxBlockLength) (session : Session) (checksums : Bool)
    (key : Option VolumeKey) (nonce : Nonce) (steps : List WriterStep)
    (hr : ∀ r ∈ WriterStep.records steps, 0 < r.tag.raw ∧ r.payload.length < 2 ^ 32) :
    ∃ w blocks ps,
      (VolumeWriter.create sink blockSize session checksums key nonce).perform (steps ++ [.flush])
        = (w, .ok ()) ∧
      w.sink = (BlockSink.writeAll sink blocks).1 ∧
      (VolumeWriter.create sink blockSize session checksums key nonce).placements steps = ps ∧
      ShowAll key 0 blocks (ps.flatMap Placement.pieces) ∧
      ∀ (readerKey : Option VolumeKey) (verify : Bool) (source left : σ) (raws : List RawBlock),
        (readerKey = key ∨ readerKey = none) → BlockSource.Yields source raws left →
        Remains verify readerKey blocks raws →
        let survivors := (ps.filter (Placement.survives (isReadable verify readerKey raws))).map
          (Placement.found session)
        (∃ fs s, ({ source, verify, key := readerKey } : VolumeReader σ).readAll
            = (fs, s, .endOfData) ∧
          Finding.records fs = survivors ∧
          Finding.failures fs = refusals verify readerKey raws ∧
          ∀ e ∈ Finding.failures fs, ∀ x, e ≠ .record x) ∧
        ∀ (o : JobOptions) (selector : Selector) (newKey : Option VolumeKey) (newNonce : Nonce)
          (newSession : Session) (newSink : ρ) (catalog : γ),
          o.proceed = true → o.verifyChecksums = verify → o.blockSize ≤ maxBlockLength →
          (BlockSource.release left).2 = .ok () → BlockSink.AcceptsAll newSink →
          (∀ bs, (BlockSink.release (BlockSink.writeAll newSink bs).1).2 = .ok ()) →
          CommitsAll catalog →
          (run o { selector } readerKey newKey newNonce newSession source newSink catalog).Leaves σ'
            newSink newKey newSession (refusals verify readerKey raws).length
            (survivors.filter fun r => !r.isLabel && selector r) := by
  obtain ⟨w, blocks, hw, hsink, hshown, hsound⟩ :=
    VolumeWriter.perform_create hs hb session checksums key nonce hr
  refine ⟨w, blocks, _, hw, hsink, rfl, hshown, ?_⟩
  intro readerKey verify source left raws hk hy hremains survivors
  obtain ⟨fs, s, hread, hleft, hrecords, hfailures, hcount⟩ :=
    VolumeReader.readAll_remains hshown hsound hk hy hremains
  refine ⟨⟨fs, s, hread, hrecords, hfailures, ?_⟩, ?_⟩
  · intro e he
    rw [hfailures] at he
    exact ne_record_of_mem_refusals he
  · intro o selector newKey newNonce newSession newSink catalog hproceed hverify hsize hrelease
      haccepts hreleases hcatalog
    have hgood : ∀ r ∈ (Finding.records fs).filter (Rules.admits { selector }),
        0 < r.tag.raw ∧ r.payload.length < 2 ^ 32 := by
      intro r hmem
      rw [hrecords] at hmem
      obtain ⟨p, hp, rfl⟩ := List.mem_map.mp (List.mem_filter.mp hmem).1
      have hplaced := hsound p (List.mem_filter.mp hp).1
      exact ⟨hplaced.tag, hplaced.length⟩
    rw [← hverify] at hread
    rw [← hleft] at hrelease
    have hleaves := run_copied σ' hsize { selector } rfl newKey newNonce newSession hread
      (.inr hproceed) hgood hrelease haccepts hreleases hcatalog
    rwa [hrecords, hcount] at hleaves

/-- The block in the middle is lost, and with it a record that has pieces in the first two blocks.
The other record is found, and copied. -/
theorem survivors_of_remains_memory :
    ∃ w start lost kept,
      (VolumeWriter.create ({ name := "volume" } : MemoryVolume) 47 ⟨7, 9⟩ true none ⟨0⟩).perform
        [.record ⟨1, ⟨2⟩, [1, 2, 3, 4], {}, 0⟩, .record ⟨2, ⟨2⟩, [5, 6], {}, 0⟩, .flush]
          = (w, .ok ()) ∧
      w.sink.blocks.toList = [start, lost, kept] ∧
      let source := MemoryVolume.ofBlocks "volume" [start, [], kept]
      let survivors : List Record := [⟨2, ⟨2⟩, [5, 6], ⟨7, 9⟩, 2⟩]
      (∃ fs s, ({ source } : VolumeReader MemoryVolume).readAll = (fs, s, .endOfData) ∧
        Finding.records fs = survivors ∧
        Finding.failures fs = [.header (.truncated 0)]) ∧
      (run { proceed := true } { selector := .all } none none ⟨0⟩ ⟨8, 1⟩ source
        ({ name := "copy" } : MemoryVolume) NoCatalog.mk).Leaves MemoryVolume { name := "copy" }
          none ⟨8, 1⟩ 1 survivors := by
  have hs : BlockSink.AcceptsAll ({ name := "volume" } : MemoryVolume) :=
    MemoryVolume.acceptsAll rfl
  obtain ⟨w, blocks, ps, hw, hsink, hplaced, hshown, hall⟩ :=
    survivors_of_remains MemoryVolume MemoryVolume (ρ := MemoryVolume) (γ := NoCatalog) hs 47
      (by decide) ⟨7, 9⟩ true none ⟨0⟩
      [.record ⟨1, ⟨2⟩, [1, 2, 3, 4], {}, 0⟩, .record ⟨2, ⟨2⟩, [5, 6], {}, 0⟩] (by decide)
  obtain rfl : ps = [
      ⟨⟨1, ⟨2⟩, [1, 2, 3, 4], {}, 0⟩,
        [⟨0, ⟨1, ⟨2⟩, 4, ⟨7, 9⟩⟩, [1, 2, 3]⟩, ⟨1, ⟨1, ⟨-2⟩, 1, ⟨7, 9⟩⟩, [4]⟩]⟩,
      ⟨⟨2, ⟨2⟩, [5, 6], {}, 0⟩, [⟨2, ⟨2, ⟨2⟩, 2, ⟨7, 9⟩⟩, [5, 6]⟩]⟩] := by
    rw [← hplaced]
    simp only [VolumeWriter.placements]
    rw [VolumeWriter.placed_split rfl rfl rfl, VolumeWriter.placed_last rfl rfl,
      VolumeWriter.writeRecord, VolumeWriter.store_partly (x := .ok ()) rfl rfl rfl]
    simp only
    rw [VolumeWriter.store_complete rfl rfl]
    simp only
    rw [VolumeWriter.placed_behind rfl rfl rfl, VolumeWriter.placed_last rfl rfl]
    rfl
  obtain ⟨start, bs, rfl, hstart, hshown⟩ := hshown.alone (by simp)
  obtain ⟨lost, cs, rfl, -, hshown⟩ := hshown.alone (by simp)
  obtain ⟨kept, ds, rfl, hkept, hshown⟩ := hshown.alone (by simp)
  obtain rfl : ds = [] := hshown.eq_nil
  obtain ⟨x, hx, -⟩ := hstart.load true 0
  obtain ⟨y, hy, -⟩ := hkept.load true 2
  have hlost : LoadedBlock.load true none ⟨1, []⟩ = .error (.header (.truncated 0)) := rfl
  have hremains : Remains true none [start, lost, kept] [⟨0, start⟩, ⟨1, []⟩, ⟨2, kept⟩] :=
    .intact rfl (.refused hlost (.intact rfl (.missing [])))
  have hrefusals : refusals true none [⟨0, start⟩, ⟨1, []⟩, ⟨2, kept⟩]
      = [.header (.truncated 0)] := by
    rw [refusals_of_ok hx, refusals_of_error hlost, refusals_of_ok hy]
    rfl
  have hmiddle : isReadable true none [⟨0, start⟩, ⟨1, []⟩, ⟨2, kept⟩] 1 = false :=
    isReadable_of_error hlost [⟨2, kept⟩]
  have hlast : isReadable true none [⟨0, start⟩, ⟨1, []⟩, ⟨2, kept⟩] 2 = true :=
    isReadable_of_ok hy []
  obtain ⟨⟨fs, s, hread, hrecords, hfailures, -⟩, hcopy⟩ := hall none true _ _ _ (.inl rfl)
    (MemoryVolume.yields_ofBlocks "volume" [start, [], kept]) hremains
  have hcopied := hcopy { proceed := true } .all none ⟨0⟩ ⟨8, 1⟩ { name := "copy" } NoCatalog.mk
    rfl rfl (by decide) rfl (MemoryVolume.acceptsAll rfl) (fun _ => rfl) commitsAll_noCatalog
  simp only [MemoryVolume.rawBlocks, Placement.survives, List.filter_cons, List.all_cons,
    List.all_nil, hmiddle, hlast, hrefusals, Bool.and_false, Bool.false_eq_true,
    if_false, Bool.and_true, if_true, List.filter_nil] at hrecords hfailures hcopied
  refine ⟨w, start, lost, kept, hw, ?_, ⟨fs, s, hread, hrecords, hfailures⟩, hcopied⟩
  rw [hsink, MemoryVolume.writeAll_eq rfl]
  simp

end Migration
end BackupVolume
