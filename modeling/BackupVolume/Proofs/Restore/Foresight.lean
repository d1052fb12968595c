import BackupVolume.Proofs.Job.Ending
import BackupVolume.Proofs.Restore.Independence
import BackupVolume.Proofs.Restore.Origins
import BackupVolume.Proofs.Restore.Rehearsal

/-! # Dry runs foretell

When a dry run has come to the end without an error, so does a restoration with a creator that never
fails, although that one passes over the data of files that are not open and decodes the other
records in other room. While both go through the volume, what the dry run has counted bounds what
the restoration has.
-/
namespace BackupVolume

def Disposition.handle? {η : Type} : Disposition η → Option η
  | .file handle => some handle
  | .created | .skipped => none

section Creator
variable {φ η : Type} [FileCreator φ η]

/-- While it is ready, with a file that is open or without one, a creator does what it is asked for
and is ready again. -/
structure FileCreator.Serves (ready : φ → Option η → Prop) : Prop where
  create {c : φ} (h : ready c none) (a : Attributes) :
    ∃ d x, FileCreator.create c a = (d, .ok x) ∧ ready d x.handle?
  seek {c : φ} {f : η} (h : ready c (some f)) (address : Nat) :
    ∃ d g, FileCreator.seek c f address = (d, .ok g) ∧ ready d (some g)
  write {c : φ} {f : η} (h : ready c (some f)) (data : Bytes) :
    ∃ d g, FileCreator.write c f data = (d, .ok g) ∧ ready d (some g)
  finish {c : φ} {f : η} (h : ready c (some f)) (a : Attributes) :
    ∃ d, FileCreator.finish c f a = (d, .ok ()) ∧ ready d none

/-- No call on the creator fails, nor on the file that it has opened, whatever calls have gone
before. -/
def FileCreator.NeverFails (creator : φ) : Prop :=
  ∃ ready : φ → Option η → Prop, ready creator none ∧ FileCreator.Serves ready

end Creator

namespace Extraction
variable {φ η : Type} {ready : φ → Option η → Prop} {o : JobOptions} {rules : Rules}
  {filter : Selection.PathFilter} {j l : Job Decoder} {k m : State φ η}

def Flawless (j : Job Decoder) : Prop := j.counts.errors = 0 ∧ j.work.stats.errors = 0

theorem flawless_of_rehearse {r : Record} (h : Flawless (rehearse filter j r).1) : Flawless j := by
  have hle := j.work.errors_le_decode r
  unfold rehearse at h
  split at h
  · next hdecode =>
    rw [hdecode] at hle
    exact ⟨h.1, Nat.eq_zero_of_le_zero (Nat.le_trans hle (Nat.le_of_eq h.2))⟩
  · next hdecode =>
    rw [hdecode] at hle
    refine ⟨?_, Nat.eq_zero_of_le_zero (Nat.le_trans hle (Nat.le_of_eq h.2))⟩
    rw [← h.1]
    exact (Counts.rehearsed_spec filter j.counts _).2.1.symm

/-- Where no error has been counted, there was none before. -/
theorem flawless_of_visit {proceed : Bool} {f : Finding}
    (h : Flawless (Job.visit proceed rules (rehearse filter) j f).1) :
    Flawless j ∧ ∃ r, f = .record r := by
  obtain ⟨pass, hvisit⟩ := Job.fst_visit proceed rules (rehearse filter) j f
  rw [hvisit] at h
  cases f with
  | damage e => exact absurd h.1 (Nat.succ_ne_zero _)
  | record r =>
    refine ⟨?_, r, rfl⟩
    rw [Job.meet] at h
    split at h
    · have hcounted : Flawless { j with
          counts := { j.counts with records := j.counts.records + 1 } } := flawless_of_rehearse h
      exact hcounted
    · exact h

structure Foretold (ready : φ → Option η → Prop) (j : Job Decoder) (k : State φ η) : Prop where
  pass : k.pass = j.pass
  records : k.counts.records = j.counts.records
  files : k.counts.files ≤ j.counts.files
  bytes : k.counts.bytes ≤ j.counts.bytes
  errors : k.counts.errors = 0
  faults : k.work.decoder.stats.errors = 0
  decoder : j.work.SameBut k.work.decoder
  steady : j.work.codecs.IsSteady
  ready : ready k.work.creator (k.work.opened.map OpenFile.handle)

/-- The restoration passes over a record that the rehearsal decodes. -/
theorem Foretold.passed {r : Record} (h : Foretold ready j k)
    (hr : rehearse filter j r = (l, .ok ())) : Foretold ready l k := by
  have hsame := (Decoder.agree_decode h.steady (.refl j.work) r).left
  rw [rehearse] at hr
  rcases hd : j.work.decode r with ⟨d, failure | action⟩
  · rw [hd] at hr
    cases hr
  · rw [hd] at hr hsame
    cases hr
    obtain ⟨hrecords, -, hfiles, hbytes⟩ := Counts.rehearsed_spec filter j.counts action
    exact
      { h with
        records := h.records.trans hrecords.symm
        files := Nat.le_trans h.files hfiles
        bytes := Nat.le_trans h.bytes hbytes
        decoder := hsame.symm.trans h.decoder
        steady := by
          rw [hsame.codecs_eq]
          exact h.steady }

/-- Both are canceled at the same places. -/
theorem Foretold.next (h : Foretold ready j k) {asked : Option Record}
    (hn : j.next rules asked = (l, none)) :
    ∃ m, k.next rules asked = (m, none) ∧ Foretold ready l m := by
  have hl : (j.next rules asked).1 = l := congrArg Prod.fst hn
  have hgoes : (j.next rules asked).2 = none := congrArg Prod.snd hn
  have hsame : (k.next rules asked).2 = (j.next rules asked).2 := by
    rw [Job.next, Job.next, h.pass]
  refine ⟨(k.next rules asked).1, Prod.ext rfl (hsame.trans hgoes), ?_⟩
  rw [← hl]
  exact { h with pass := congrArg (· + 1) h.pass }

variable [FileCreator φ η]

section Serves
variable (hs : FileCreator.Serves ready)
include hs

theorem Foretold.close (h : Foretold ready j k) :
    ∃ m, Extraction.close k = (m, .ok ()) ∧ m.work.opened = none ∧ Foretold ready j m := by
  rw [Extraction.close]
  rcases hopened : k.work.opened with _ | f
  · exact ⟨k, rfl, hopened, h⟩
  · have hready := h.ready
    rw [hopened] at hready
    obtain ⟨c, hfinish, hnext⟩ := hs.finish hready f.attributes
    simp only [hfinish]
    exact ⟨_, rfl, rfl, { h with ready := hnext }⟩

theorem Foretold.openFile (h : Foretold ready j k) (ho : o.dryRun = false)
    (hk : k.work.opened = none) (a : Attributes) :
    Foretold ready { j with counts := j.counts.rehearsed filter (.attributes a) }
      (Extraction.openFile o filter k a) := by
  rw [Extraction.openFile, Counts.rehearsed, ho]
  cases filter.accepts a.name
  · exact h
  · have hready := h.ready
    rw [hk] at hready
    simp only [Bool.not_true, Bool.false_eq_true, if_false, if_true]
    split
    · exact { h with files := Nat.le_succ_of_le h.files }
    · obtain ⟨c, x, hcreate, hnext⟩ := hs.create hready a
      simp only [hcreate]
      rcases x with handle | _ | _
      · exact { h with files := Nat.succ_le_succ h.files, ready := hnext }
      · exact { h with files := Nat.succ_le_succ h.files, ready := by rw [hk]; exact hnext }
      · exact { h with files := Nat.le_succ_of_le h.files, ready := by rw [hk]; exact hnext }

theorem Foretold.moveTo (h : Foretold ready j k) {f : OpenFile η} (hk : k.work.opened = some f)
    (address : Option Nat) :
    ∃ m g, Extraction.moveTo k f address = (m, .ok g) ∧ m.work.opened = some g ∧
      Foretold ready j m := by
  have hready := h.ready
  rw [hk] at hready
  rcases address with _ | address
  · exact ⟨k, f, rfl, hk, h⟩
  · rw [Extraction.moveTo]
    split
    · exact ⟨k, f, rfl, hk, h⟩
    · obtain ⟨c, g, hseek, hnext⟩ := hs.seek hready address
      simp only [hseek]
      exact ⟨_, _, rfl, rfl, { h with ready := hnext }⟩

theorem Foretold.write (h : Foretold ready j k) (address : Option Nat) (data : Bytes) :
    ∃ m, Extraction.write k address data = (m, .ok ()) ∧
      Foretold ready { j with counts := j.counts.rehearsed filter (.write address data) } m := by
  have hcounted : Foretold ready
      { j with counts := j.counts.rehearsed filter (.write address data) }
      { k with counts := { k.counts with bytes := k.counts.bytes + data.length } } :=
    { h with bytes := Nat.add_le_add_right h.bytes _ }
  rw [Extraction.write]
  rcases hopened : k.work.opened with _ | f
  · exact ⟨_, rfl, hcounted⟩
  · obtain ⟨m, g, hmove, hmoved, hthere⟩ := hcounted.moveTo hs hopened address
    have hready := hthere.ready
    rw [hmoved] at hready
    obtain ⟨c, handle, hwrite, hnext⟩ := hs.write hready data
    simp only [hmove, hwrite]
    exact ⟨_, rfl, { hthere with ready := hnext }⟩

/-- Both do what a record asks for, if that is no fault. -/
theorem Foretold.perform (h : Foretold ready j k) (ho : o.dryRun = false) {action : Action}
    (hfault : ∀ f, action ≠ .fault f)
    (hclosed : ∀ a, action = .attributes a → k.work.opened = none) :
    ∃ m, Extraction.perform o filter k action = (m, .ok ()) ∧
      Foretold ready { j with counts := j.counts.rehearsed filter action } m := by
  cases action with
  | attributes a => exact ⟨_, rfl, h.openFile hs ho (hclosed a rfl) a⟩
  | write address data => exact h.write hs address data
  | nothing => exact ⟨k, rfl, h⟩
  | fault f => exact absurd rfl (hfault f)

/-- Both decode a record: the one finds the result that the other one has found. -/
theorem Foretold.decode {r : Record} (h : Foretold ready j k) (ho : o.dryRun = false)
    (hclosed : r.tag.isAttributes = true → k.work.opened = none)
    (hr : rehearse filter j r = (l, .ok ())) (hl : Flawless l) :
    ∃ m, Extraction.decode o filter k r = (m, .ok ()) ∧ Foretold ready l m := by
  have hagree := Decoder.agree_decode h.steady h.decoder r
  have hfault (f : RecordFault) : (j.work.decode r).2 = .ok (.fault f) →
      0 < (j.work.decode r).1.stats.errors := Decoder.errors_pos_of_fault
  have hattributes (a : Attributes) (ha : (j.work.decode r).2 = .ok (.attributes a)) :
      k.work.opened = none := hclosed (Decoder.Decodes.isAttributes ⟨j.work, .refl _, ha⟩)
  rw [rehearse] at hr
  rw [Extraction.decode]
  rcases hd : j.work.decode r with ⟨d, x⟩
  rcases he : k.work.decoder.decode r with ⟨e, y⟩
  rw [hd, he] at hagree
  rw [hd] at hfault hattributes hr
  obtain rfl : x = y := hagree.result
  rcases x with failure | action
  · cases hr
  · cases hr
    have hnone : d.stats.errors = 0 := hl.2
    have hfaults : e.stats.errors = 0 := by
      obtain ⟨more, hgrown, hgrown'⟩ := hagree.counts
      have hmore : j.work.stats.errors + more.errors = 0 := by
        rw [← hnone]
        exact congrArg DecoderStats.errors hgrown.symm
      have hsame : e.stats.errors = k.work.decoder.stats.errors + more.errors :=
        congrArg DecoderStats.errors hgrown'
      rw [hsame, h.faults]
      omega
    have hdecoded : Foretold ready { j with work := d }
        { k with work := { k.work with decoder := e } } :=
      { h with
        faults := hfaults
        decoder := hagree.right
        steady := by
          rw [hagree.left.codecs_eq]
          exact h.steady }
    refine hdecoded.perform hs ho (fun f hf => ?_) fun a ha => ?_
    · exact absurd hnone (Nat.ne_of_gt (hfault f (congrArg Except.ok hf)))
    · exact hattributes a (congrArg Except.ok ha)

/-- What the rehearsal has done with a record without an error, the restoration does, or it passes
over the record. -/
theorem Foretold.handle {r : Record} (h : Foretold ready j k) (ho : o.dryRun = false)
    (hr : rehearse filter j r = (l, .ok ())) (hl : Flawless l) :
    ∃ m, Extraction.handle o filter k r = (m, .ok ()) ∧ Foretold ready l m := by
  rw [Extraction.handle]
  by_cases hcloses : (r.tag.isAttributes || r.tag.isOpaqueFileData) = true
  · rw [if_pos hcloses]
    obtain ⟨k', hclose, hclosed, hbetween⟩ := h.close hs
    simp only [hclose]
    exact hbetween.decode hs ho (fun _ => hclosed) hr hl
  · rw [if_neg hcloses]
    split
    · exact ⟨k, rfl, h.passed hr⟩
    · refine h.decode hs ho (fun hattributes => ?_) hr hl
      rw [hattributes, Bool.true_or] at hcloses
      exact absurd rfl hcloses

end Serves

/-- What the rehearsal has seen without an error does not stop the restoration. -/
theorem Foretold.visit (hs : FileCreator.Serves ready) (ho : o.dryRun = false) {proceed : Bool}
    {f : Finding} (h : Foretold ready j k)
    (hv : Job.visit proceed rules (rehearse filter) j f = (l, none)) (hl : Flawless l) :
    ∃ m, Job.visit proceed rules (Extraction.handle o filter) k f = (m, none) ∧
      Foretold ready l m := by
  have hbefore : Flawless (Job.visit proceed rules (rehearse filter) j f).1 := by rwa [hv]
  obtain ⟨-, r, rfl⟩ := flawless_of_visit hbefore
  by_cases ha : rules.admits r = true
  · rw [Job.visit_of_admits ha] at hv ⊢
    have hcounted : Foretold ready
        { j with counts := { j.counts with records := j.counts.records + 1 } }
        { k with counts := { k.counts with records := k.counts.records + 1 } } :=
      { h with records := congrArg (· + 1) h.records }
    rcases hr : rehearse filter { j with
      counts := { j.counts with records := j.counts.records + 1 } } r with ⟨i, e | ⟨⟨⟩⟩⟩
    · simp [hr] at hv
    · simp only [hr] at hv
      have hflawless : Flawless (i.next rules (some r)).1 := by rwa [hv]
      obtain ⟨m, hhandle, hnext⟩ := hcounted.handle hs ho hr hflawless
      simp only [hhandle]
      exact hnext.next hv
  · rw [Job.visit_of_not_admits proceed _ ha] at hv ⊢
    exact h.next hv

/-- A restoration follows a rehearsal that has come to the end without an error. -/
theorem exists_foretold {σ : Type} [BlockSource σ] (hs : FileCreator.Serves ready)
    (ho : o.dryRun = false) {decoder : Decoder} (hc : decoder.codecs.IsSteady) {creator : φ}
    (hready : ready creator none) {reader s : VolumeReader σ}
    (hj : Job.run o.proceed rules (rehearse filter) decoder reader = (j, s, .ok .terminated))
    (hl : Flawless j) :
    ∃ k, Job.run o.proceed rules (handle o filter) { creator, decoder } reader
        = (k, s, .ok .terminated) ∧ Foretold ready j k := by
  obtain ⟨hcancel, hall, hend⟩ := Job.run_terminated_iff.mp hj
  have hgood (t : Job Decoder) (f : Finding) (v : Job Decoder)
      (hv : Job.visit o.proceed rules (rehearse filter) t f = (v, none)) (hgood : Flawless v) :
      Flawless t := (flawless_of_visit (by rwa [hv])).1
  have hnew (hstart : Flawless { work := decoder }) :
      Foretold ready { work := decoder } ({ work := { creator, decoder } } : State φ η) :=
    { pass := rfl
      records := rfl
      files := Nat.le_refl _
      bytes := Nat.le_refl _
      errors := rfl
      faults := hstart.2
      decoder := .refl decoder
      steady := hc
      ready := hready }
  obtain ⟨k, hk, hforetold⟩ := showAll_related hgood
    (fun t u f v h hv hl => h.visit hs ho hv hl) hnew hall hl
  exact ⟨k, Job.run_terminated_iff.mpr ⟨hcancel, hk, hend⟩, hforetold⟩

/-- A dry run does the same whatever the creator, which it leaves as it is: it makes no call. When it
has come to the end and has counted no error, the restoration of the same volume with a creator that
never fails comes to the end as well and counts no error. It has read the same blocks and worked on
the same records, and has restored no more files and octets than were foretold. -/
theorem foretells_run {σ : Type} [BlockSource σ] (o : JobOptions) (rules : Rules)
    (filter : Selection.PathFilter) {decoder : Decoder} (hc : decoder.codecs.IsSteady)
    (key : Option VolumeKey) {creator : φ} (hcreator : FileCreator.NeverFails creator)
    (source : σ) :
    let dry := run { o with dryRun := true } rules filter decoder key creator source
    let real := run { o with dryRun := false } rules filter decoder key creator source
    (∀ {ψ θ : Type} [FileCreator ψ θ] (other : ψ),
      run { o with dryRun := true } rules filter decoder key other source
        = { dry with creator := other }) ∧
    ∀ foretold, dry.result = .ok foretold → foretold.status = .terminated →
      foretold.errors = 0 →
      ∃ found, real.result = .ok found ∧ found.status = .terminated ∧ found.errors = 0 ∧
        found.records = foretold.records ∧ found.blocks = foretold.blocks ∧
        found.corruptBlocks = foretold.corruptBlocks ∧ found.files ≤ foretold.files ∧
        found.bytes ≤ foretold.bytes := by
  intro dry real
  have hdry : dry = _ := run_dryRun filter (o := { o with dryRun := true }) rfl rules decoder key
    creator source
  refine ⟨fun other => ?_, fun foretold hresult hstatus herrors => ?_⟩
  · rw [hdry, run_dryRun filter (o := { o with dryRun := true }) rfl]
  · obtain ⟨ready, hready, hs⟩ := hcreator
    obtain ⟨j, s, x, hj⟩ : ∃ j s x, Job.run o.proceed rules (rehearse filter) decoder
      { source, verify := o.verifyChecksums, key } = (j, s, x) := ⟨_, _, _, rfl⟩
    rw [hdry, rehearsal] at hresult
    simp only [hj] at hresult
    have hended := (Job.status_summaryOf_result { j with
      counts := { j.counts with errors := j.counts.errors + j.work.stats.errors } } s.stats
      (firstFailure x [(BlockSource.release s.source).2.mapError .device])).mp
      (by rw [hresult]; exact hstatus)
    obtain rfl := ok_of_firstFailure hended
    rw [hended] at hresult
    cases hresult
    have hflawless : Flawless j := Nat.add_eq_zero_iff.mp herrors
    obtain ⟨k, hk, hforetold⟩ :=
      exists_foretold (o := { o with dryRun := false }) hs rfl hc hready hj hflawless
    obtain ⟨m, hclose, -, hend⟩ := hforetold.close hs
    have hreal : real.result = .ok (Job.summary { m with
        counts := { m.counts with errors := m.counts.errors + m.work.decoder.stats.errors } }
        s.stats .terminated) := by
      have hclosed : firstFailure (.ok .terminated)
          [.ok (), (BlockSource.release s.source).2.mapError .device] = .ok .terminated := hended
      simp only [real, run_eq hk hclose, hclosed]
      rfl
    refine ⟨_, hreal, rfl, ?_, hend.records, rfl, rfl, hend.files, hend.bytes⟩
    exact Nat.add_eq_zero_iff.mpr ⟨hend.errors, hend.faults⟩

def twoFiles : List Record :=
  [describing 1 49 97, ⟨1, ⟨4⟩, [120, 1, 1, 2, 0, 253, 255, 5, 6, 0, 18, 0, 12], {}, 0⟩,
    describing 2 50 98, filling 2 [7] 0]

def twoFilesBlock : Bytes := clearBlock 0 (twoFiles.map wholePiece)

theorem receive_twoFilesBlock {σ : Type} (source : σ) :
    ({ source } : VolumeReader σ).receive ⟨0, twoFilesBlock⟩
      = ({ source, assembler := { records := 4 }, stats := { blocks := 1 } },
        twoFiles.map .record) :=
  VolumeReader.receive_clearBlock rfl (by decide) (by decide +kernel) (by decide +kernel)
    twoFiles rfl 0

theorem readAll_twoFilesBlock :
    ∃ s, ({ source := MemoryVolume.ofBlocks "volume" [twoFilesBlock] } :
      VolumeReader MemoryVolume).readAll = (twoFiles.map .record, s, .endOfData) ∧
      s.stats = { blocks := 1 } :=
  VolumeReader.readAll_oneBlock "volume" receive_twoFilesBlock

def steadyDecoder : Decoder :=
  { Decoder.create {} with
    codecs := { plain := Compression.steadyZlib, wrapped := fun _ => Compression.steadyZlib } }

def firstOnly : Selection.PathFilter := { includes := [['a']] }

theorem rehearse_twoFiles :
    ∃ j, showAll (Job.visit false {} (rehearse firstOnly)) { work := steadyDecoder }
        (twoFiles.map .record) = (j, none) ∧
      j.counts = ⟨1, 4, 0, 3, 0⟩ ∧ j.work.stats.errors = 0 :=
  ⟨_, Prod.ext rfl (Option.isNone_iff_eq_none.mp (by decide +kernel)), by decide +kernel,
    by decide +kernel⟩

/-- Of two files the filter accepts the first one, whose data are compressed. -/
theorem foretells_run_memory :
    let source : MemoryVolume := .ofBlocks "volume" [twoFilesBlock]
    let dry := run { dryRun := true } {} firstOnly steadyDecoder none Accepting.accepting source
    let real := run {} {} firstOnly steadyDecoder none Accepting.accepting source
    steadyDecoder.codecs.IsSteady ∧ FileCreator.NeverFails Accepting.accepting ∧
      dry.result = .ok ⟨.terminated, 1, 4, 0, 1, 0, 3, 0⟩ ∧
      ∃ found, real.result = .ok found ∧ found.status = .terminated ∧ found.errors = 0 ∧
        found.records = 4 ∧ found.blocks = 1 ∧ found.corruptBlocks = 0 ∧ found.files ≤ 1 ∧
        found.bytes ≤ 3 := by
  intro source dry real
  have hsteady : steadyDecoder.codecs.IsSteady :=
    ⟨Compression.Codec.isSteady_answering _ _, fun _ => Compression.Codec.isSteady_answering _ _⟩
  have hnever : FileCreator.NeverFails Accepting.accepting :=
    ⟨fun _ _ => True, trivial, ⟨fun _ _ => ⟨_, _, rfl, trivial⟩, fun _ _ => ⟨_, _, rfl, trivial⟩,
      fun _ _ => ⟨_, _, rfl, trivial⟩, fun _ _ => ⟨_, rfl, trivial⟩⟩⟩
  obtain ⟨s, hread, hstats⟩ := readAll_twoFilesBlock
  obtain ⟨j, hall, hcounts, hfaults⟩ := rehearse_twoFiles
  have hj : Job.run false {} (rehearse firstOnly) steadyDecoder { source }
      = (j, s, .ok .terminated) := by
    refine Job.run_terminated_iff.mpr ⟨rfl, ?_, congrArg Prod.snd hread⟩
    rw [hread]
    exact hall
  have hdry : dry.result = .ok ⟨.terminated, 1, 4, 0, 1, 0, 3, 0⟩ := by
    simp only [dry]
    rw [run_dryRun firstOnly rfl, rehearsal]
    simp only [hj, Job.result, Job.summary, hstats, hcounts, hfaults]
    rfl
  obtain ⟨-, hforetold⟩ := foretells_run {} {} firstOnly hsteady none hnever source
  exact ⟨hsteady, hnever, hdry, hforetold _ hdry rfl rfl⟩

end Extraction
end BackupVolume
