import BackupVolume.Proofs.Migration.Copying
import BackupVolume.Proofs.Volume.Wholeness

/-! # Migrations are faithful

A volume that can be read without a failure, in whatever layouts and with whatever cuts, is copied
record by record: the destination has the selected records, no others, and nothing about them is
changed but the session.
-/
namespace BackupVolume.Migration
variable {σ κ γ : Type} [BlockSource σ] [BlockSink κ] [Catalog γ]

/-- The destination has exactly the records that are no labels and that the selector accepts. -/
theorem leaves_run (σ' : Type) [BlockSource σ'] (o : JobOptions)
    (hb : o.blockSize ≤ maxBlockLength) (selector : Selector)
    (sourceKey sinkKey : Option VolumeKey) (nonce : Nonce) (session : Session) (source : σ)
    {rs : List Record} {s : VolumeReader σ}
    (hr : ({ source, verify := o.verifyChecksums, key := sourceKey } : VolumeReader σ).readAll
      = (rs.map .record, s, .endOfData))
    (ht : ∀ r ∈ rs, r.isLabel = false → selector r = true → r.tag.raw ≠ 0)
    (hsource : (BlockSource.release s.source).2 = .ok ())
    {sink : κ} (hs : BlockSink.AcceptsAll sink)
    (hsink : ∀ bs, (BlockSink.release (BlockSink.writeAll sink bs).1).2 = .ok ())
    {catalog : γ} (hcatalog : CommitsAll catalog) :
    (run o { selector } sourceKey sinkKey nonce session source sink catalog).Leaves σ' sink sinkKey
      session s.stats.corruptBlocks (rs.filter fun r => !r.isLabel && selector r) := by
  have hstorable := VolumeReader.isStorable_readAll (by rintro f ⟨⟩) hr
  rw [Finding.records_map_record] at hstorable
  have hgood : ∀ r ∈ (Finding.records (rs.map .record)).filter (Rules.admits { selector }),
      0 < r.tag.raw ∧ r.payload.length < 2 ^ 32 := by
    intro r hmem
    rw [Finding.records_map_record, List.mem_filter] at hmem
    obtain ⟨hmem, hadmits⟩ := hmem
    obtain ⟨hlabel, hselected⟩ : r.isLabel = false ∧ selector r = true := by
      simpa [Rules.admits] using hadmits
    obtain ⟨htag, hlength⟩ := hstorable r hmem
    refine ⟨?_, hlength⟩
    rw [StreamTag.isContinuation, decide_eq_false_iff_not, Int32.not_lt] at htag
    exact Int32.lt_of_le_of_ne htag (ht r hmem hlabel hselected).symm
  have hleaves := run_copied σ' hb { selector } rfl sinkKey nonce session hr
    (.inl (Finding.failures_map_record rs)) hgood hsource hs hsink hcatalog
  rwa [Finding.records_map_record] at hleaves

theorem commitsAll_noCatalog : CommitsAll (NoCatalog.mk) := by
  intro es
  induction es with
  | nil => rfl
  | cons e es ih => exact ih

/-- A block of the second layout with a label and a file of two octets. -/
theorem leaves_run_memory :
    let pieces : List Piece := [⟨⟨-1, ⟨1⟩, 0, ⟨3, 4⟩⟩, []⟩, ⟨⟨1, ⟨2⟩, 2, ⟨3, 4⟩⟩, [8, 9]⟩]
    let header : BlockHeader := ⟨.bb02, .checksum, 0, 5, ⟨3, 4⟩, 0⟩
    let old := MemoryVolume.ofBlocks "old" [(header.encode (pieces.flatMap (Piece.toBytes .bb02))).2]
    (run {} { selector := .all } none none ⟨0⟩ ⟨7, 9⟩ old ({ name := "new" } : MemoryVolume)
      NoCatalog.mk).Leaves MemoryVolume { name := "new" } none ⟨7, 9⟩ 0
        [⟨1, ⟨2⟩, [8, 9], ⟨3, 4⟩, 5⟩] := by
  intro pieces header old
  let payload := pieces.flatMap (Piece.toBytes .bb02)
  let b : LoadedBlock := ⟨(header.encode payload).1, 0, payload⟩
  have hload : LoadedBlock.load true none ⟨0, (header.encode payload).2⟩ = .ok b := by
    have hdecode : LoadedBlock.decode true 0 (header.encode payload).2 = .ok b :=
      LoadedBlock.decode_encode true 0 (.inl rfl) (by decide)
    have hopen : b.header.options.contains .blockSealed = false := by
      change ((header.complete payload).options).contains .blockSealed = false
      rw [BlockHeader.options_complete]
      decide
    simp only [LoadedBlock.load, hdecode, hopen, Bool.false_eq_true, if_false]
  have hunpack : Assembler.unpackAll {} b
      = ({ records := 2 }, [.ok ⟨-1, ⟨1⟩, [], ⟨3, 4⟩, 5⟩, .ok ⟨1, ⟨2⟩, [8, 9], ⟨3, 4⟩, 5⟩]) := by
    have hlayout : b.layout = .bb02 := BlockHeader.layout_complete header payload
    have hrest : b.rest = pieces.flatMap (Piece.toBytes b.layout) := by rw [hlayout]
    have hsession : b.session = ⟨3, 4⟩ := BlockHeader.session_complete header payload
    have hnumber : b.number = 5 := BlockHeader.number_complete header payload
    have hofSession : ∀ p ∈ pieces, p.head.session = ⟨3, 4⟩ := by decide
    have hlast : ∀ p ∈ pieces.dropLast, p.data.length = p.head.outstanding.toNat := by decide
    rw [Assembler.unpackAll_pieces {} (fun p hp => .inr ?_) hrest (by decide) hlast, hnumber]
    · rfl
    · rw [hsession]
      exact hofSession p hp
  have hread := VolumeReader.readAll_yields (r := { source := old }) rfl
    (MemoryVolume.yields_ofBlocks "old" [(header.encode payload).2])
  have hreceive : ({ source := old } : VolumeReader MemoryVolume).receiveAll
      (MemoryVolume.rawBlocks 0 [(header.encode payload).2])
      = ({ source := old, assembler := { records := 2 }, stats := { blocks := 1 } },
        [⟨-1, ⟨1⟩, [], ⟨3, 4⟩, 5⟩, ⟨1, ⟨2⟩, [8, 9], ⟨3, 4⟩, 5⟩].map .record) := by
    simp only [MemoryVolume.rawBlocks, VolumeReader.receiveAll, VolumeReader.receive, hload, hunpack]
    rfl
  rw [VolumeReader.afterAll, hreceive] at hread
  exact leaves_run MemoryVolume {} (by decide) .all none none ⟨0⟩ ⟨7, 9⟩ old hread (by decide) rfl
    (MemoryVolume.acceptsAll (v := { name := "new" }) rfl) (fun _ => rfl) commitsAll_noCatalog

end BackupVolume.Migration
