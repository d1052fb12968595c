import BackupVolume.Proofs.Volume.Remains

/-! # Volumes are read back

Whatever records a writer is given and wherever its blocks end, a reader with the same key finds
these records in their order, and nothing else. It is enough that the sink takes every block and
that some source hands them out again.
-/
namespace BackupVolume

theorem VolumeReader.dropPending_of_none {σ : Type} {r : VolumeReader σ}
    (h : r.assembler.pending = none) : r.dropPending = r := by
  rw [dropPending, if_neg (by simp [Assembler.isPending, h])]

/-- The records that are read from these blocks, whatever source of the kind `σ` hands them out:
they are found in this order, of this session, and nothing else is found. There is no damage, no
piece without its record and no record without its end. -/
def ReadsBack (σ : Type) [BlockSource σ] (key : Option VolumeKey) (session : Session)
    (blocks : List Bytes) (rs : List Record) : Prop :=
  ∀ (source left : σ) (raws : List RawBlock) (verify : Bool),
    BlockSource.Yields source raws left → raws.map RawBlock.bytes = blocks →
    ∃ found : List Record,
      ({ source, verify, key } : VolumeReader σ).readAll =
        (found.map .record,
          { source := left, verify, key, assembler := { records := found.length }
            stats := { blocks := blocks.length } }, .endOfData) ∧
      found.map Record.unplaced = rs.map fun r => (r.inSession session).unplaced

/-- The session that records had before is of no account. -/
theorem readsBack_inSession {σ : Type} [BlockSource σ] {key : Option VolumeKey} {session : Session}
    {blocks : List Bytes} {rs : List Record}
    (h : ReadsBack σ key session blocks (rs.map (Record.inSession session))) :
    ReadsBack σ key session blocks rs := by
  intro source left raws verify hy hr
  obtain ⟨found, hfound, hrecords⟩ := h source left raws verify hy hr
  rw [List.map_map] at hrecords
  exact ⟨found, hfound, hrecords⟩

section RoundTrip
variable {κ : Type} (σ : Type) [BlockSink κ] [BlockSource σ]

theorem ShowAll.readsBack {key : Option VolumeKey} {session : Session} {bs : List Bytes}
    {ps : List Placement} (hq : ShowAll key 0 bs (ps.flatMap Placement.pieces))
    (hp : ∀ p ∈ ps, p.IsSound session) :
    ReadsBack σ key session bs (ps.map Placement.record) := by
  intro source left raws verify hy hr
  have hkept : ∀ p ∈ ps, p.survives (fun _ => true) = true := by
    intro p _
    exact List.all_eq_true.mpr fun _ _ => rfl
  have hall := Assembler.meetAll_kept _ (a := {}) hp hkept rfl
  rw [Nat.zero_add] at hall
  have hreceive := VolumeReader.receiveAll_whole (r := { source, verify, key }) hq hr rfl
    (congrArg Prod.snd hall)
  refine ⟨ps.map (Placement.found session), ?_, ?_⟩
  · rw [VolumeReader.readAll_yields rfl hy, VolumeReader.afterAll, hreceive, hall,
      VolumeReader.dropPending_of_none rfl]
    simp
  · rw [List.map_map, List.map_map]
    exact List.map_congr_left fun p _ => p.unplaced_found session

/-- All records that a writer is given are read back. -/
theorem VolumeWriter.readsBack_perform {sink : κ} (hs : BlockSink.AcceptsAll sink)
    (blockSize : Nat) (hb : blockSize ≤ maxBlockLength) (session : Session) (checksums : Bool)
    (key : Option VolumeKey) (nonce : Nonce) (steps : List WriterStep)
    (hr : ∀ r ∈ WriterStep.records steps, 0 < r.tag.raw ∧ r.payload.length < 2 ^ 32) :
    ∃ w blocks,
      (create sink blockSize session checksums key nonce).perform (steps ++ [.flush])
        = (w, .ok ()) ∧
      w.sink = (BlockSink.writeAll sink blocks).1 ∧
      ReadsBack σ key session blocks (WriterStep.records steps) := by
  obtain ⟨w, blocks, hw, hsink, hshown, hsound⟩ :=
    perform_create hs hb session checksums key nonce hr
  have hread := hshown.readsBack σ hsound
  rw [map_record_placements] at hread
  exact ⟨w, blocks, hw, hsink, hread⟩

end RoundTrip

/-- A record that needs a block for each of its octets, and a label behind it. -/
theorem VolumeWriter.readsBack_perform_memory :
    BlockSink.AcceptsAll ({ name := "volume" } : MemoryVolume) ∧
    ∃ w blocks,
      (create ({ name := "volume" } : MemoryVolume) 0 ⟨7, 9⟩ true none ⟨0⟩).perform
        [.record ⟨1, ⟨2⟩, [1, 2, 3], {}, 0⟩, .flush, .record ⟨-1, ⟨1⟩, [], {}, 0⟩, .flush]
        = (w, .ok ()) ∧
      w.sink.blocks.toList = blocks ∧
      ∃ found : List Record,
        ({ source := MemoryVolume.ofBlocks "volume" blocks } : VolumeReader MemoryVolume).readAll.1
          = found.map .record ∧
        found.map Record.unplaced
          = [⟨1, ⟨2⟩, [1, 2, 3], ⟨7, 9⟩, 0⟩, ⟨-1, ⟨1⟩, [], ⟨7, 9⟩, 0⟩] := by
  have hs : BlockSink.AcceptsAll ({ name := "volume" } : MemoryVolume) :=
    MemoryVolume.acceptsAll rfl
  refine ⟨hs, ?_⟩
  obtain ⟨w, blocks, hw, hsink, hread⟩ := readsBack_perform MemoryVolume hs 0 (by decide) ⟨7, 9⟩
    true none ⟨0⟩ [.record ⟨1, ⟨2⟩, [1, 2, 3], {}, 0⟩, .flush, .record ⟨-1, ⟨1⟩, [], {}, 0⟩] (by decide)
  obtain ⟨found, hfound, hrecords⟩ := hread _ _ _ true (MemoryVolume.yields_ofBlocks "volume" blocks)
    (MemoryVolume.map_bytes_rawBlocks 0 blocks)
  refine ⟨w, blocks, hw, ?_, found, by rw [hfound], hrecords⟩
  rw [hsink, MemoryVolume.writeAll_eq rfl]
  simp

end BackupVolume
