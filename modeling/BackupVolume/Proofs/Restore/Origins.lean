import BackupVolume.Proofs.Restore.Bookkeeping
import BackupVolume.Proofs.Restore.Closing
import BackupVolume.Proofs.Volume.Remains

/-! # Where the octets of files come from

What is written into a file comes from the data records behind the attribute record for which it
was opened, up to the next attribute record. An extraction does not ask for their file index and
their session: each file gets its own data where every data record follows the attribute record of
its file, and where that record was lost, its data go into the file before.
-/
namespace BackupVolume

/-- Every data record carries the file index and the session of the last attribute record before
it. -/
def Follows (rs : List Record) : Prop :=
  ∀ before a between r after, rs = before ++ a :: between ++ r :: after →
    a.tag.isAttributes = true → (∀ q ∈ between, q.tag.isAttributes = false) →
    r.tag.isFileData = true → r.fileIndex = a.fileIndex ∧ r.session = a.session

theorem Follows.agree {rs before between after : List Record} {a r : Record} (h : Follows rs)
    (hfirst : before ++ a :: between ++ r :: after <+: rs) (ha : a.tag.isAttributes = true)
    (hbetween : ∀ q ∈ between, q.tag.isAttributes = false) (hr : r.tag.isFileData = true) :
    r.fileIndex = a.fileIndex ∧ r.session = a.session := by
  obtain ⟨rest, hrest⟩ := hfirst
  rw [List.append_assoc, List.cons_append] at hrest
  exact h before a between r (after ++ rest) hrest.symm ha hbetween hr

namespace Extraction
variable {σ φ η : Type} [FileCreator φ η]

/-- What is written into a file comes from data records that the extraction works on behind the
attribute record for which the file was opened, and before any other attribute record. Where data
records follow the attribute records of their files, index and session are those of that record. -/
theorem origins_run [BlockSource σ] (o : JobOptions) (rules : Rules)
    (filter : Selection.PathFilter) (decoder : Decoder) (key : Option VolumeKey) (creator : φ)
    (source : σ) :
    let reader : VolumeReader σ := { source, verify := o.verifyChecksums, key }
    let admitted := (Finding.records reader.readAll.1).filter rules.admits
    let outcome := run o rules filter decoder key ({ creator } : Logged φ) source
    run o rules filter decoder key creator source
        = { outcome with creator := outcome.creator.creator } ∧
      outcome.creator.log.filterMap FileEvent.opening? = List.range outcome.creator.files ∧
      ∃ worked : List (Record × Option FileEvent), worked.map Prod.fst <+: admitted ∧
        outcome.creator.log = worked.filterMap Prod.snd ∧
        ∀ before r n data after, worked = before ++ (r, some (.wrote n data)) :: after →
          r.tag.isFileData = true ∧ (∃ address, decoder.Decodes r (.write address data)) ∧
          ∃ ahead a attributes between,
            before = ahead ++ (a, some (.opened n attributes)) :: between ∧
            a.tag.isAttributes = true ∧ decoder.Decodes a (.attributes attributes) ∧
            (∀ q ∈ between, q.1.tag.isAttributes = false) ∧
            (Follows admitted → r.fileIndex = a.fileIndex ∧ r.session = a.session) := by
  intro reader admitted outcome
  have hplain := run_map Logged.unlogged o rules filter decoder key ({ creator } : Logged φ) source
  obtain ⟨j, s, x, hjob⟩ : ∃ j s x, Job.run o.proceed rules (handle o filter)
    { creator := ({ creator } : Logged φ), decoder } reader = (j, s, x) := ⟨_, _, _, rfl⟩
  obtain ⟨rs, hadmitted, hworked⟩ := Job.exists_worked hjob
  obtain ⟨-, worked, hrecords, haccounts⟩ := exists_accounts hworked
  have hcreator : outcome.creator = (close j).1.work.creator := by
    simp only [outcome, run]
    rw [hjob]
  -- Closing the last file writes nothing.
  have hbook := (book_close j).1
  have hlog : outcome.creator.log = j.work.book.log := by
    rw [hcreator]
    exact congrArg FileBook.log hbook
  have hfiles : outcome.creator.files = j.work.book.files := by
    rw [hcreator]
    exact congrArg FileBook.files hbook
  refine ⟨hplain, ?_, worked, ?_, ?_, ?_⟩
  · rw [hlog, hfiles, haccounts.openings]
  · rw [hrecords]
    exact hadmitted
  · rw [hlog, haccounts.log]
  · intro before r n data after hsplit
    obtain ⟨⟨address, hdecodes⟩, ahead, a, attributes, between, hbefore, hopener, hbetween⟩ :=
      haccounts.writings before r n data after hsplit
    refine ⟨hdecodes.isFileData, ⟨address, hdecodes⟩, ahead, a, attributes, between, hbefore,
      hopener.isAttributes, hopener, hbetween, fun hfollows => ?_⟩
    have hothers : ∀ q ∈ between.map Prod.fst, q.tag.isAttributes = false := by
      intro q hq
      obtain ⟨p, hp, rfl⟩ := List.mem_map.mp hq
      exact hbetween p hp
    rw [← hrecords, hsplit, hbefore, List.map_append, List.map_append, List.map_cons,
      List.map_cons] at hadmitted
    exact hfollows.agree hadmitted hopener.isAttributes hothers hdecodes.isFileData

end Extraction

def clearHeader (n : Nat) : BlockHeader := ⟨.bb03, .none, 0, n.toUInt32, {}, 0⟩

def clearBlock (n : Nat) (ps : List Piece) : Bytes :=
  ((clearHeader n).encode (ps.flatMap (Piece.toBytes .bb03))).2

theorem shows_clearBlock {n : Nat} {ps : List Piece} (hne : ps ≠ [])
    (hp : ∀ p ∈ ps, p.IsLast ∧ p.head.session = {})
    (hl : 24 + (ps.flatMap (Piece.toBytes .bb03)).length ≤ maxBlockLength) :
    Shows none n (clearBlock n ps) ps := by
  obtain ⟨area, harea⟩ : ∃ area, ps.flatMap (Piece.toBytes .bb03) = area := ⟨_, rfl⟩
  obtain ⟨h, hh⟩ : ∃ h, (clearHeader n).complete area = h := ⟨_, rfl⟩
  have hoptions : h.options = .none := by
    rw [← hh, BlockHeader.options_complete]
    rfl
  have hlayout : h.layout = .bb03 := by
    rw [← hh, BlockHeader.layout_complete]
    rfl
  have hsession : h.session = {} := by
    rw [← hh, BlockHeader.session_complete]
    rfl
  have hnumber : h.number = n.toUInt32 := by
    rw [← hh, BlockHeader.number_complete]
    rfl
  have hlength : h.headerLength = 24 := by
    rw [BlockHeader.headerLength, hlayout, hoptions]
    decide
  have hload (verify : Bool) (address : Nat) :
      LoadedBlock.load verify none ⟨address, clearBlock n ps⟩ = .ok ⟨h, address, area⟩ := by
    have hknown : BlockOptions.ofBits? BlockOptions.none.bits = some .none := by decide
    have hsize : ((clearHeader n).encode area).1.headerLength + area.length ≤ maxBlockLength := by
      rw [BlockHeader.encode, hh, hlength, ← harea]
      exact hl
    have hdecode := LoadedBlock.decode_encode verify address (.inr hknown) hsize
    have hplain : BlockOptions.none.contains .blockSealed = false := by decide
    rw [BlockHeader.encode, hh] at hdecode
    simp only [LoadedBlock.load, clearBlock, BlockHeader.encode, harea, hh, hdecode, hoptions,
      hplain, Bool.false_eq_true, if_false]
  refine ⟨hne, fun verify address =>
    ⟨_, hload verify address, fun a => ?_, .inl (hload verify address)⟩⟩
  rw [← hnumber]
  refine Assembler.unpackAll_pieces a (fun p hmem => .inr ?_) ?_
    (fun p hmem => Nat.le_of_eq (hp p hmem).1) fun p hmem => (hp p (List.dropLast_subset ps hmem)).1
  · exact (hp p hmem).2.trans hsession.symm
  · rw [LoadedBlock.layout, hlayout]
    exact harea.symm

theorem VolumeReader.receive_clearBlock {σ : Type} {r : VolumeReader σ} (hk : r.key = none)
    {n : Nat} {ps : List Piece} (hne : ps ≠ []) (hp : ∀ p ∈ ps, p.IsLast ∧ p.head.session = {})
    (hl : 24 + (ps.flatMap (Piece.toBytes .bb03)).length ≤ maxBlockLength) (rs : List Record)
    (hrs : (r.assembler.receiveAll n.toUInt32 ps).2 = rs.map .ok) (address : Nat) :
    r.receive ⟨address, clearBlock n ps⟩ = ({ r with
      assembler := (r.assembler.receiveAll n.toUInt32 ps).1
      stats := { r.stats with blocks := r.stats.blocks + 1 } }, rs.map .record) := by
  have hshows : Shows none n (clearBlock n ps) ps := shows_clearBlock hne hp hl
  obtain ⟨b, hload, -⟩ := hshows.load r.verify address
  rw [← hk] at hload
  exact receive_shows hshows rfl (.inl hk) hload hrs

/-- What a volume of one block shows is what the block yields. -/
theorem VolumeReader.readAll_oneBlock (name : String) {block : Bytes} {n : Nat}
    {fs : List Finding}
    (h : ∀ source : MemoryVolume, ({ source } : VolumeReader MemoryVolume).receive ⟨0, block⟩
      = ({ source, assembler := { records := n }, stats := { blocks := 1 } }, fs)) :
    ∃ s, ({ source := MemoryVolume.ofBlocks name [block] } : VolumeReader MemoryVolume).readAll
      = (fs, s, .endOfData) ∧ s.stats = { blocks := 1 } := by
  have hread := readAll_yields (r := ({ source := .ofBlocks name [block] } :
    VolumeReader MemoryVolume)) rfl (MemoryVolume.yields_ofBlocks name [block])
  simp only [MemoryVolume.rawBlocks, afterAll, receiveAll, h, List.append_nil] at hread
  exact ⟨_, hread, rfl⟩

inductive Accepting where
  | accepting

instance : FileCreator Accepting Unit where
  create c _ := (c, .ok (.file ()))
  path _ _ := ""
  seek c _ _ := (c, .ok ())
  write c _ _ := (c, .ok ())
  finish c _ _ := (c, .ok ())

namespace Extraction

/-- Every write is that of a record with the file index and the session of the record that had opened
the file. -/
def Separates (rs : List Record) (log : List FileEvent) : Prop :=
  ∃ worked : List (Record × Option FileEvent), worked.map Prod.fst <+: rs ∧
    log = worked.filterMap Prod.snd ∧
    ∀ before r n data after, worked = before ++ (r, some (.wrote n data)) :: after →
      ∃ a attributes, (a, some (.opened n attributes)) ∈ before ∧
        r.fileIndex = a.fileIndex ∧ r.session = a.session

def wholePiece (r : Record) : Piece := ⟨(Outstanding.whole r).header {}, r.payload⟩

def describing (fileIndex : Int32) (number name : UInt8) : Record :=
  ⟨fileIndex, ⟨1⟩, [number, 32, 51, 32, name, 0] ++
    [65, 32, 65, 32, 65, 32, 65, 32, 65, 32, 65, 32, 65, 32, 65, 0, 0, 0], {}, 0⟩

def filling (fileIndex : Int32) (data : Bytes) (blockNumber : UInt32) : Record :=
  ⟨fileIndex, ⟨2⟩, data, {}, blockNumber⟩

def firstAttributes : Attributes := ⟨1, 3, "a", {}, "", "", 0⟩

def firstBlock : Bytes :=
  clearBlock 0 [wholePiece (describing 1 49 97), wholePiece (filling 1 [1] 0)]

theorem receive_firstBlock {σ : Type} (source : σ) :
    ({ source } : VolumeReader σ).receive ⟨0, firstBlock⟩
      = ({ source, assembler := { records := 2 }, stats := { blocks := 1 } },
        [.record (describing 1 49 97), .record (filling 1 [1] 0)]) :=
  VolumeReader.receive_clearBlock rfl (by decide) (by decide +kernel) (by decide +kernel)
    [describing 1 49 97, filling 1 [1] 0] rfl 0

theorem readAll_firstBlock : ∃ s, ({ source := MemoryVolume.ofBlocks "volume" [firstBlock] } :
    VolumeReader MemoryVolume).readAll
      = ([.record (describing 1 49 97), .record (filling 1 [1] 0)], s, .endOfData) := by
  obtain ⟨s, hread, -⟩ := VolumeReader.readAll_oneBlock "volume" receive_firstBlock
  exact ⟨s, hread⟩

theorem follows_firstBlock : Follows [describing 1 49 97, filling 1 [1] 0] := by
  intro before a between r after h _ _ _
  have hlength := congrArg List.length h
  simp only [List.length_append, List.length_cons, List.length_nil] at hlength
  obtain rfl : before = [] := List.eq_nil_of_length_eq_zero (by omega)
  obtain rfl : between = [] := List.eq_nil_of_length_eq_zero (by omega)
  cases h
  exact ⟨rfl, rfl⟩

/-- A file with its own data. -/
theorem origins_run_memory :
    let source : MemoryVolume := .ofBlocks "volume" [firstBlock]
    let rs := (Finding.records ({ source } : VolumeReader MemoryVolume).readAll.1).filter
      (Rules.admits {})
    let log := (run {} {} {} (Decoder.create {}) none ({ creator := .accepting } : Logged Accepting)
      source).creator.log
    Follows rs ∧ log = [.opened 0 firstAttributes, .wrote 0 [1]] ∧ Separates rs log := by
  intro source rs log
  obtain ⟨s, hread⟩ := readAll_firstBlock
  have hfollows : Follows rs := by
    have hrs : rs = [describing 1 49 97, filling 1 [1] 0] := by
      simp only [rs, source, hread]
      decide +kernel
    rw [hrs]
    exact follows_firstBlock
  have hlog : log = [.opened 0 firstAttributes, .wrote 0 [1]] := by
    simp only [log, source]
    rw [creator_run_of_readAll rfl hread
      (Prod.ext rfl (Option.isNone_iff_eq_none.mp (by decide +kernel)))]
    decide +kernel
  obtain ⟨-, -, worked, hworked, hall, hfrom⟩ :=
    origins_run {} {} {} (Decoder.create {}) none Accepting.accepting source
  refine ⟨hfollows, hlog, worked, hworked, hall, fun before r n data after h => ?_⟩
  obtain ⟨-, -, ahead, a, attributes, between, hbefore, -, -, -, hsame⟩ :=
    hfrom before r n data after h
  exact ⟨a, attributes, by simp [hbefore], hsame hfollows⟩

/-- Where as much was done as there are records, every record did one thing. -/
theorem eq_zip_of_length_le {worked : List (Record × Option FileEvent)} {rs : List Record}
    {events : List FileEvent} (hr : worked.map Prod.fst <+: rs)
    (he : events = worked.filterMap Prod.snd) (hl : rs.length ≤ events.length) :
    worked = rs.zip (events.map some) := by
  have hworked : worked.length ≤ rs.length := by simpa using hr.length_le
  have hevents : events.length ≤ worked.length := by
    rw [he]
    exact List.length_filterMap_le _ _
  have hsome : ∀ p ∈ worked, p.2.isSome = true :=
    List.filterMap_length_eq_length.mp (by rw [← he]; omega)
  refine List.zip_of_prod (hr.eq_of_length (by rw [List.length_map]; omega)) ?_
  rw [he, List.map_filterMap]
  clear he hr hworked hevents
  induction worked with
  | nil => rfl
  | cons p worked ih =>
    obtain ⟨event, hevent⟩ := Option.isSome_iff_exists.mp (hsome p (by simp))
    have hrest := ih fun q hq => hsome q (by simp [hq])
    simp [hevent, hrest]

def damagedBlocks : List Bytes :=
  [firstBlock, (clearBlock 1 [wholePiece (describing 2 50 98)]).take 40,
    clearBlock 2 [wholePiece (filling 2 [2] 2)]]

theorem readAll_damagedBlocks : ∃ s, ({ source := MemoryVolume.ofBlocks "volume" damagedBlocks } :
    VolumeReader MemoryVolume).readAll
      = ([.record (describing 1 49 97), .record (filling 1 [1] 0),
          .damage (.header (.badLength 60 24 40)), .record (filling 2 [2] 2)], s, .endOfData) := by
  have hcut (source : MemoryVolume) :
      ({ source, assembler := { records := 2 }, stats := { blocks := 1 } } :
        VolumeReader MemoryVolume).receive
          ⟨1, (clearBlock 1 [wholePiece (describing 2 50 98)]).take 40⟩
        = ({ source, assembler := { records := 2 }, stats := { blocks := 2, corruptBlocks := 1 } },
          [.damage (.header (.badLength 60 24 40))]) := rfl
  have hlast (source : MemoryVolume) :
      ({ source, assembler := { records := 2 }, stats := { blocks := 2, corruptBlocks := 1 } } :
        VolumeReader MemoryVolume).receive ⟨2, clearBlock 2 [wholePiece (filling 2 [2] 2)]⟩
        = ({ source, assembler := { records := 3 }, stats := { blocks := 3, corruptBlocks := 1 } },
          [.record (filling 2 [2] 2)]) :=
    VolumeReader.receive_clearBlock rfl (by decide) (by decide +kernel) (by decide +kernel)
      [filling 2 [2] 2] rfl 2
  have hread := VolumeReader.readAll_yields (r := ({ source := .ofBlocks "volume" damagedBlocks } :
    VolumeReader MemoryVolume)) rfl (MemoryVolume.yields_ofBlocks "volume" damagedBlocks)
  simp only [damagedBlocks, MemoryVolume.rawBlocks, VolumeReader.receiveAll, receive_firstBlock,
    hcut, hlast] at hread
  exact ⟨_, hread⟩

/-- The data of a file whose description was lost are written into the file before. -/
theorem not_separates_damagedBlocks :
    let o : JobOptions := { proceed := true }
    let source : MemoryVolume := .ofBlocks "volume" damagedBlocks
    let rs := (Finding.records ({ source } : VolumeReader MemoryVolume).readAll.1).filter
      (Rules.admits {})
    let log := (run o {} {} (Decoder.create o) none ({ creator := .accepting } : Logged Accepting)
      source).creator.log
    log = [.opened 0 firstAttributes, .wrote 0 [1], .wrote 0 [2]] ∧ ¬ Separates rs log := by
  intro o source rs log
  obtain ⟨s, hread⟩ := readAll_damagedBlocks
  have hrs : rs = [describing 1 49 97, filling 1 [1] 0, filling 2 [2] 2] := by
    simp only [rs, source, hread]
    decide +kernel
  have hlog : log = [.opened 0 firstAttributes, .wrote 0 [1], .wrote 0 [2]] := by
    simp only [log, source]
    rw [creator_run_of_readAll rfl hread
      (Prod.ext rfl (Option.isNone_iff_eq_none.mp (by decide +kernel)))]
    decide +kernel
  refine ⟨hlog, ?_⟩
  rintro ⟨worked, hworked, hall, hfrom⟩
  rw [hrs] at hworked
  rw [hlog] at hall
  have hzip := eq_zip_of_length_le hworked hall (Nat.le_refl _)
  -- The last record fills the file that the first one has opened.
  obtain ⟨a, attributes, hmem, hindex, -⟩ := hfrom
    [(describing 1 49 97, some (.opened 0 firstAttributes)), (filling 1 [1] 0, some (.wrote 0 [1]))]
    (filling 2 [2] 2) 0 [2] [] hzip
  obtain ⟨rfl, -⟩ : a = describing 1 49 97 ∧ attributes = firstAttributes := by simpa using hmem
  exact absurd hindex (by decide)

end Extraction
end BackupVolume
