import BackupVolume.Proofs.Compression.Wrapping
import BackupVolume.Proofs.Job.Passage
import BackupVolume.Proofs.Restore.Passage
import BackupVolume.Proofs.Volume.RoundTrip

/-! # Stored files are restored

Files that are written to a volume, in whatever forms their chunks are stored and wherever blocks end,
are restored from it with their contents, if the key, the chunks and the codecs are at hand and the
files can be created.
-/
namespace BackupVolume
open Compression

theorem StoredChunk.of_mem_records {codecs : Codecs} {cap : Nat} {fileIndex : Int32} {before : Nat}
    {cs : List StoredChunk} (hc : ∀ c ∈ cs, c.IsSound codecs cap) {p : Record × Nat}
    (hp : p ∈ records codecs fileIndex before cs) :
    p.1.fileIndex = fileIndex ∧ 0 < p.1.tag.raw := by
  induction cs generalizing before with
  | nil => cases hp
  | cons c cs ih =>
    rcases List.mem_cons.mp hp with rfl | hp
    · exact ⟨rfl, (hc c (by simp)).tag⟩
    · exact ih (fun d hd => hc d (by simp [hd])) hp

theorem StoredFile.of_mem_records {codecs : Codecs} {cap : Nat} {f : StoredFile}
    (hf : f.IsSound codecs cap) {p : Record × Nat} (hp : p ∈ f.records codecs) :
    0 ≤ p.1.fileIndex ∧ 0 < p.1.tag.raw := by
  rcases List.mem_cons.mp hp with rfl | hp
  · exact ⟨hf.index, hf.tag⟩
  · obtain ⟨hindex, htag⟩ := StoredChunk.of_mem_records hf.chunks hp
    exact ⟨hindex ▸ hf.index, htag⟩

theorem ChunkStore.core_encoded (r : Record) (size : Nat) :
    (encoded r size).fileIndex = r.fileIndex ∧ (encoded r size).tag = r.tag := by
  unfold encoded
  split <;> exact ⟨rfl, rfl⟩

namespace Extraction
variable {σ : Type} [BlockSource σ]

/-- The extraction went through its source without an error, and all these files are in the tree
under their names, with their contents. -/
def Outcome.Restores (x : Outcome σ LocalFiles) (files : List StoredFile) : Prop :=
  ∃ summary, x.result = .ok summary ∧ summary.status = .terminated ∧ summary.errors = 0 ∧
    ∀ f ∈ files, ∃ path, LocalFiles.target? x.creator.root f.attributes.name = some path ∧
      x.creator.tree.readFile path = .ok f.content.toArray

theorem readFile_of_has {c : LocalFiles} {f : StoredFile} {h : LocalFile} (hf : c.Has f h) :
    LocalFiles.target? c.root f.attributes.name = some h.path ∧
      c.tree.readFile h.path = .ok f.content.toArray := by
  refine ⟨hf.path, ?_⟩
  rw [FileTree.readFile, hf.found]
  simp [bind, Except.bind, hf.content, pure, Except.pure]

/-- Records that are read from a volume of stored files are awaited. -/
theorem awaits_of_found {store : ChunkStore} {session : Session}
    {plan : List (Record × Nat)} {found : List Record}
    (hfound : found.map Record.unplaced
      = (plan.map fun p => ChunkStore.encoded p.1 p.2).map fun r => (r.inSession session).unplaced)
    (hk : ∀ p ∈ plan, (∀ piece ∈ ChunkStore.piecesOf p.1 p.2, store.Knows piece) ∧
      p.1.payload.length < 2 ^ 32) : Awaits store found plan := by
  refine ⟨?_, hk⟩
  have hmap := congrArg (List.map Record.core) hfound
  rw [List.map_map, List.map_map, List.map_map] at hmap
  exact hmap

theorem Awaits.isLabel {store : ChunkStore} {rs : List Record} {plan : List (Record × Nat)}
    (h : Awaits store rs plan) (hp : ∀ p ∈ plan, 0 ≤ p.1.fileIndex) {r : Record} (hr : r ∈ rs) :
    r.isLabel = false := by
  have hcore : r.core ∈ rs.map Record.core := List.mem_map.mpr ⟨r, hr, rfl⟩
  rw [h.records] at hcore
  obtain ⟨p, hmem, hsame⟩ := List.mem_map.mp hcore
  have hindex : (ChunkStore.encoded p.1 p.2).fileIndex = r.fileIndex := congrArg Prod.fst hsame
  have hpositive := hp p hmem
  rw [← (ChunkStore.core_encoded p.1 p.2).1, hindex] at hpositive
  simpa [Record.isLabel] using hpositive

section Run
variable {codecs : Codecs} {cap : Nat} {store : ChunkStore} {filter : Selection.PathFilter}
  {files : List StoredFile} {o : JobOptions} {decoder : Decoder} {creator : LocalFiles}

/-- An extraction that reads the records of stored files restores them. -/
theorem restores_of_awaits (ho : o.dryRun = false) (hd : decoder.IsReady codecs cap store)
    (hf : ∀ f ∈ files, f.IsSound codecs cap ∧ filter.accepts f.attributes.name = true)
    {handles : List LocalFile}
    (hopens : LocalFiles.OpensAll creator (files.map StoredFile.attributes) handles)
    (hdistinct : (handles.map LocalFile.node).Nodup) {key : Option VolumeKey} {source : σ}
    {found : List Record} {s : VolumeReader σ}
    (hread : ({ source, verify := o.verifyChecksums, key } : VolumeReader σ).readAll
      = (found.map .record, s, .endOfData))
    (hawaits : Awaits store found (StoredFile.plan codecs files))
    (hrelease : (BlockSource.release s.source).2 = .ok ()) :
    (run o {} filter decoder key creator source).Restores files := by
  have hindex : ∀ p ∈ StoredFile.plan codecs files, 0 ≤ p.1.fileIndex := by
    intro p hp
    obtain ⟨f, hmem, hpf⟩ := List.mem_flatMap.mp hp
    exact (StoredFile.of_mem_records (hf f hmem).1 hpf).1
  have hadmits : (Finding.records (found.map .record)).filter (Rules.admits {}) = found := by
    rw [Finding.records_map_record]
    refine List.filter_eq_self.mpr fun r hmem => ?_
    rw [Rules.admits, hawaits.isLabel hindex hmem]
    rfl
  have hprogress : Progress codecs cap store filter { creator, decoder } [] [] files :=
    ⟨hd, by simp, hf, creator, handles, ⟨rfl, rfl⟩, hopens, hdistinct⟩
  have hstart : Underway codecs cap store filter files { creator, decoder }
      ((Finding.records (found.map .record)).filter (Rules.admits {})) := by
    rw [hadmits]
    exact .between (List.nil_append files) rfl hprogress hawaits
  have hstep (j : State LocalFiles LocalFile) (r : Record) (rs : List Record)
      (hi : j.counts.errors = 0 ∧ Underway codecs cap store filter files j.work (r :: rs)) :
      ∃ k, handle o filter j r = (k, .ok ()) ∧
        (k.counts.errors = 0 ∧ Underway codecs cap store filter files k.work rs) ∧
        k.counts.records = j.counts.records := by
    obtain ⟨k, hhandle, hunderway, herrors, hrecords⟩ := hi.2.step ho
    exact ⟨k, hhandle, ⟨herrors.trans hi.1, hunderway⟩, hrecords⟩
  obtain ⟨k, hrun, ⟨hcount, hunderway⟩, -⟩ : ∃ k,
      Job.run o.proceed {} (handle o filter) { creator, decoder }
        ({ source, verify := o.verifyChecksums, key } : VolumeReader σ)
        = (k, s, .ok .terminated) ∧
      (k.counts.errors = 0 ∧ Underway codecs cap store filter files k.work []) ∧
      k.counts.records = _ :=
    Job.run_terminated (fun w n rs => n = 0 ∧ Underway codecs cap store filter files w rs) rfl hread
      (.inl (Finding.failures_map_record found)) hstep ⟨rfl, hstart⟩
  obtain ⟨l, hclose, hdecoder, herrors, hhas⟩ := hunderway.finish
  rw [Outcome.Restores, run]
  simp only [hrun, hclose, hrelease]
  refine ⟨_, rfl, rfl, ?_, ?_⟩
  · simp [Job.summary, herrors, hcount, hdecoder]
  · intro f hmem
    obtain ⟨h, hh⟩ := hhas f hmem
    exact ⟨h.path, readFile_of_has hh⟩

end Run

/-- Files that were written to a volume are restored from it. -/
theorem restores_perform (σ : Type) [BlockSource σ] {κ : Type} [BlockSink κ]
    {sink : κ} (hs : BlockSink.AcceptsAll sink)
    {blockSize : Nat} (hb : blockSize ≤ maxBlockLength) (session : Session) (checksums : Bool)
    (key : Option VolumeKey) (nonce : Nonce) {codecs : Codecs} {o : JobOptions}
    (ho : o.dryRun = false) {filter : Selection.PathFilter} {files : List StoredFile}
    (hf : ∀ f ∈ files, f.IsSound codecs (max o.decompressCap 1) ∧
      filter.accepts f.attributes.name = true)
    (hp : ∀ p ∈ StoredFile.plan codecs files, p.1.payload.length < 2 ^ 32)
    {store : ChunkStore}
    (hd : store.Separates (ChunkStore.piecesOfAll (StoredFile.plan codecs files)))
    {steps : List WriterStep}
    (hr : WriterStep.records steps = (store.encodeAll (StoredFile.plan codecs files)).2)
    (hl : ∀ r ∈ WriterStep.records steps, r.payload.length < 2 ^ 32)
    {creator : LocalFiles} {handles : List LocalFile}
    (hopens : LocalFiles.OpensAll creator (files.map StoredFile.attributes) handles)
    (hdistinct : (handles.map LocalFile.node).Nodup) :
    ∃ w blocks,
      (VolumeWriter.create sink blockSize session checksums key nonce).perform (steps ++ [.flush])
        = (w, .ok ()) ∧
      w.sink = (BlockSink.writeAll sink blocks).1 ∧
      ∀ (source left : σ) (raws : List RawBlock), BlockSource.Yields source raws left →
        raws.map RawBlock.bytes = blocks → (BlockSource.release left).2 = .ok () →
        (run o {} filter { Decoder.create o
            (store.encodeAll (StoredFile.plan codecs files)).1.rehydrate with codecs } key creator
          source).Restores files := by
  have hencoded := ChunkStore.encodeAll_eq store (StoredFile.plan codecs files)
  have hgood : ∀ r ∈ WriterStep.records steps, 0 < r.tag.raw ∧ r.payload.length < 2 ^ 32 := by
    intro r hmem
    refine ⟨?_, hl r hmem⟩
    rw [hr, hencoded] at hmem
    obtain ⟨p, hmemp, rfl⟩ := List.mem_map.mp hmem
    obtain ⟨f, hmemf, hpf⟩ := List.mem_flatMap.mp hmemp
    rw [(ChunkStore.core_encoded p.1 p.2).2]
    exact (StoredFile.of_mem_records (hf f hmemf).1 hpf).2
  obtain ⟨w, blocks, hw, hsink, hshown, hsound⟩ :=
    VolumeWriter.perform_create hs hb session checksums key nonce hgood
  refine ⟨w, blocks, hw, hsink, fun source left raws hy hblocks hrelease => ?_⟩
  have hread := hshown.readsBack σ hsound
  rw [VolumeWriter.map_record_placements, hr, hencoded] at hread
  obtain ⟨found, hall, hfound⟩ := hread source left raws o.verifyChecksums hy hblocks
  have hawaits : Awaits (store.encodeAll (StoredFile.plan codecs files)).1 found
      (StoredFile.plan codecs files) :=
    awaits_of_found hfound fun p hmem =>
      ⟨fun piece hpiece => ChunkStore.knows_encodeAll hd hmem hpiece, hp p hmem⟩
  exact restores_of_awaits ho (Decoder.isReady_create o codecs _) hf hopens hdistinct hall hawaits
    hrelease

/-- Two octets that are deduplicated, three zeros that are left out, two octets in a container, and a
zero at the end. -/
def twoChunks : StoredFile where
  attributes := ⟨1, 3, "a", { size := 8 }, "", "", 0⟩
  tag := ⟨1⟩
  payload := [49, 32, 51, 32, 97, 0] ++
    [65, 32, 65, 32, 65, 32, 65, 32, 65, 32, 65, 32, 65, 32, 73, 0, 0, 0]
  chunks := [{ data := [1, 2], tag := ⟨0x8002⟩, pieceSize := 2 },
    { gap := 3, data := [5, 6], tag := ⟨30⟩, compress := Lzo1x.compress, codec := .lzo1x }]
  tail := 1

example : twoChunks.content = [1, 2, 0, 0, 0, 5, 6, 0] := rfl

theorem isSound_twoChunks {cap : Nat} (hcap : 2 ≤ cap) : twoChunks.IsSound {} cap := by
  refine ⟨by decide, by decide, by decide, rfl, by decide, by decide, ?_, by decide, by decide⟩
  intro c hc
  simp only [twoChunks, List.mem_cons, List.not_mem_nil, or_false] at hc
  rcases hc with rfl | rfl
  · exact ⟨by decide, by decide, by decide, fun h => absurd h (by decide),
      fun h => absurd h (by decide)⟩
  · exact ⟨by decide, by decide, by decide, fun h => absurd h (by decide),
      fun _ => ⟨by decide, 2, hcap, settles_lzo1x⟩⟩

theorem opensAll_twoChunks :
    LocalFiles.OpensAll { tree := .empty, root := "/" } [twoChunks.attributes]
      [{ node := 1, path := "/a" }] := by
  have htarget : LocalFiles.target? "/" "a" = some "/a" := by decide +kernel
  have hdirectory : LocalFiles.directoryOf "/" "a" = "/" := by decide +kernel
  have hroot : FileTree.Path.ofString "/" = ⟨true, [], true⟩ := by decide +kernel
  have hpath : FileTree.Path.ofString "/a" = ⟨true, ["a"], false⟩ := by decide +kernel
  have hmake : FileTree.empty.makeAll "/" = (.empty, .ok ()) := by
    rw [FileTree.makeAll, hroot]
    rw [if_neg (by decide), List.reverse_nil, FileTree.makeAllParts]
  have hplace : FileTree.empty.locate true "/a" false = .ok (.entry 0 "a" none) := by
    rw [FileTree.locate, if_neg (by decide), if_neg (by decide), hpath]
    simp only [Bool.false_and, Bool.false_eq_true, if_false, List.append_nil]
    rw [FileTree.placeOf, FileTree.walk_cons]
    rfl
  have hopen : FileTree.empty.openEmpty "/a"
      = ((FileTree.empty.add 0 "a" (.file 0o644 #[])).1, .ok 1) := by
    rw [FileTree.openEmpty, hplace, hpath]
    rfl
  have hcreate : ({ tree := .empty, root := "/" } : LocalFiles).create twoChunks.attributes
      = ({ tree := (FileTree.empty.add 0 "a" (.file 0o644 #[])).1, root := "/" },
        .ok (.file { node := 1, path := "/a" })) := by
    rw [LocalFiles.create, show twoChunks.attributes.name = "a" from rfl, htarget, hdirectory]
    simp only [hmake]
    rw [LocalFiles.createAt_regular (by decide), hopen]
    rfl
  exact .cons hcreate (FileTree.content?_add _ 0 "a" 0o644 _) (.nil _)

/-- A file with two chunks, in blocks that are as small as can be. -/
theorem restores_perform_memory :
    let stored := ({} : ChunkStore).encodeAll (StoredFile.plan {} [twoChunks])
    ∃ w blocks,
      (VolumeWriter.create ({ name := "volume" } : MemoryVolume) 0 ⟨7, 9⟩ true none ⟨0⟩).perform
        (stored.2.map .record ++ [.flush]) = (w, .ok ()) ∧
      w.sink.blocks.toList = blocks ∧
      (run {} {} {} (Decoder.create {} stored.1.rehydrate) none
        ({ tree := .empty, root := "/" } : LocalFiles)
        (MemoryVolume.ofBlocks "volume" blocks)).Restores [twoChunks] := by
  intro stored
  have hchunks : Bytes.chunks 2 [1, 2] = [[1, 2]] := by
    rw [Bytes.chunks_of_ne_nil 2 (by decide), Bytes.chunks]
    rfl
  have hr : WriterStep.records (stored.2.map .record) = stored.2 :=
    WriterStep.records_map_record stored.2
  have hl : ∀ r ∈ stored.2, r.payload.length < 2 ^ 32 := by
    intro r hmem
    have hencoded := congrArg Prod.snd (ChunkStore.encodeAll_eq {} (StoredFile.plan {} [twoChunks]))
    rw [hencoded] at hmem
    obtain ⟨p, hp, rfl⟩ := List.mem_map.mp hmem
    change p ∈ [(twoChunks.description, 0), (⟨1, ⟨0x8002⟩, [1, 2], {}, 0⟩, 2), _] at hp
    simp only [List.mem_cons, List.not_mem_nil, or_false] at hp
    rcases hp with rfl | rfl | rfl
    · decide
    · have hpayload : (ChunkStore.encoded ⟨1, ⟨0x8002⟩, [1, 2], {}, 0⟩ 2).payload
          = (Bytes.chunks 2 [1, 2]).flatMap ChunkStore.reference := rfl
      rw [hpayload, hchunks, List.flatMap_singleton, ChunkStore.length_reference]
      decide
    · decide
  have hd : ({} : ChunkStore).Separates
      (ChunkStore.piecesOfAll (StoredFile.plan {} [twoChunks])) := by
    have hpieces : ChunkStore.piecesOfAll (StoredFile.plan {} [twoChunks])
        = Bytes.chunks 2 [1, 2] ++ [] := rfl
    rw [hpieces, List.append_nil, hchunks]
    constructor
    · intro c _ d hfound
      cases hfound
    · intro c hc d he _
      rw [List.mem_singleton.mp hc, List.mem_singleton.mp he]
  have hf : ∀ f ∈ [twoChunks], f.IsSound {} (max ({} : JobOptions).decompressCap 1) ∧
      ({} : Selection.PathFilter).accepts f.attributes.name = true := by
    intro f hmem
    obtain rfl := List.mem_singleton.mp hmem
    exact ⟨isSound_twoChunks (by decide), by decide⟩
  have hs : BlockSink.AcceptsAll ({ name := "volume" } : MemoryVolume) :=
    MemoryVolume.acceptsAll rfl
  obtain ⟨w, blocks, hw, hsink, hrestores⟩ := restores_perform MemoryVolume hs (Nat.zero_le _)
    ⟨7, 9⟩ true none ⟨0⟩ rfl hf (by decide) hd hr (by rwa [hr]) opensAll_twoChunks (by decide)
  refine ⟨w, blocks, hw, ?_, ?_⟩
  · rw [hsink, MemoryVolume.writeAll_eq rfl]
    simp
  · exact hrestores _ _ _ (MemoryVolume.yields_ofBlocks "volume" blocks)
      (MemoryVolume.map_bytes_rawBlocks 0 blocks) rfl

end Extraction
end BackupVolume
