import BackupVolume.Proofs.Migration.Closing
import BackupVolume.Proofs.Migration.Copying
import BackupVolume.Proofs.Migration.Entries
import BackupVolume.Proofs.Migration.Fidelity
import BackupVolume.Proofs.Restore.Origins
import BackupVolume.Proofs.Restore.Scopes
import BackupVolume.Proofs.Volume.Failing

/-! # How far failures reach

A migration that is not to proceed passes to its writer what comes before the first damage, one that
is to proceed passes what comes behind it as well, and without damage there is no difference. No
migration and no extraction is aborted for a single record, nor for a single block if it is to
proceed.
-/
namespace BackupVolume.Migration
variable {σ κ γ : Type}

structure Tracked (κ γ : Type) where
  migration : Migration κ γ
  passed : List Record := []

variable [BlockSink κ] [Catalog γ]

def track (o : JobOptions) (session : Session) (j : Job (Tracked κ γ)) (r : Record) :
    Job (Tracked κ γ) × Except Failure Unit :=
  let plain := j.map Tracked.migration
  let (k, x) := handle o session plain r
  let passed := match (catalogRecord o plain (r.inSession session)).2 with
    | .ok () => j.work.passed ++ [r.inSession session]
    | .error _ => j.work.passed
  (k.map fun migration => { migration, passed }, x)

section Track
variable {o : JobOptions} {session : Session} {j k : Job (Tracked κ γ)} {r : Record}

/-- Keeping the records does not change what is done. -/
theorem handle_migration (o : JobOptions) (session : Session) (j : Job (Tracked κ γ))
    (r : Record) : handle o session (j.map Tracked.migration) r
      = ((track o session j r).1.map Tracked.migration, (track o session j r).2) := rfl

theorem passed_prefix_track (o : JobOptions) (session : Session) (j : Job (Tracked κ γ))
    (r : Record) : j.work.passed <+: (track o session j r).1.work.passed := by
  simp only [track, Job.map]
  split
  · exact List.prefix_append _ _
  · exact List.prefix_rfl

/-- What holds of a migration that has passed these records to the writer it was given while neither
its sink nor its catalog has failed. -/
structure Passing (o : JobOptions) (session : Session) (sink : κ) (new : VolumeWriter κ)
    (w : Tracked κ γ) (rs : List Record) : Prop where
  writer : VolumeWriter.Unhindered sink w.migration.writer
  performed : new.perform ((rs.map (Record.inSession session)).map .record)
    = (w.migration.writer, .ok ())
  catalog : Commits o w.migration
  passed : w.passed = rs.map (Record.inSession session)

omit [BlockSink κ] in
theorem errors_catalogRecord (o : JobOptions) (session : Session) (j : State κ γ) (r : Record) :
    (catalogRecord o j (r.inSession session)).1.counts.errors
      = j.counts.errors + if r.isUnreadable then 1 else 0 := by
  rcases CatalogEntry.ofRecord_inSession session r with ⟨hr, -, e, he⟩ | ⟨hr, he⟩
  · rw [catalogRecord, he, hr]
    rfl
  · rw [catalogRecord, he, hr]
    rcases CatalogEntry.of? session r with _ | entry
    · rfl
    · simp only [enter]
      split <;> rfl

/-- One more record is passed, if its blocks can be sealed. -/
theorem Passing.track {sink : κ} {new : VolumeWriter κ} (hs : BlockSink.AcceptsAll sink)
    {rs : List Record} (h : Passing o session sink new j.work rs) {r : Record}
    (hseals : new.SealsAll ((rs ++ [r]).map (Record.inSession session))) :
    ∃ k, track o session j r = (k, .ok ()) ∧ Passing o session sink new k.work (rs ++ [r]) ∧
      k.counts.records = j.counts.records ∧
      k.counts.errors = j.counts.errors + if r.isUnreadable then 1 else 0 := by
  have herrors := errors_catalogRecord o session (j.map Tracked.migration) r
  have hcatalog : Commits o (j.map Tracked.migration).work := h.catalog
  obtain ⟨k, hk, hcommits, hkeeps, hcount⟩ := hcatalog.catalogRecord (r.inSession session)
  rw [hk] at herrors
  have hsteps : ((rs ++ [r]).map (Record.inSession session)).map WriterStep.record
      = (rs.map (Record.inSession session)).map .record ++ [.record (r.inSession session)] := by
    rw [List.map_append, List.map_append]
    rfl
  have hperform := VolumeWriter.perform_append h.performed [.record (r.inSession session)]
  rw [← hsteps] at hperform
  have hwriter : VolumeWriter.Unhindered sink k.work.writer := by
    rw [hkeeps]
    exact h.writer
  have hkept : k.work.writer = j.work.migration.writer := hkeeps
  rw [← hkept, VolumeWriter.perform, VolumeWriter.writeRecord] at hperform
  rcases hwriter.store hs (.whole (r.inSession session)) with
    ⟨v, left, hstore, hopen⟩ | ⟨v, left, hstore⟩
  · have hentry : catalogRecord o (j.map Tracked.migration) { r with session } = (k, .ok ()) := hk
    have hwrite : k.work.writer.writeRecord { r with session } = (v, left, .ok ()) := hstore
    simp only [hstore, VolumeWriter.perform] at hperform
    simp only [Migration.track, handle, hentry, hk, hwrite]
    refine ⟨_, rfl, ⟨hopen, hperform, ⟨hcommits.spool, hcommits.commit⟩, ?_⟩, hcount, herrors⟩
    rw [List.map_append, ← h.passed]
    rfl
  · simp only [hstore] at hperform
    exact absurd (congrArg Prod.snd hperform) (hseals _)

end Track

/-- Work on a record fails only where the migration cannot go on, or at sealing. -/
theorem scope_of_handle {o : JobOptions} {session : Session} {j k : State κ γ} {r : Record}
    {e : Failure} (h : handle o session j r = (k, .error e)) :
    e.scope = .job ∨ e = .crypto .encryptionFailed := by
  rcases handle_cases o session j r with
    ⟨n, x, hentry, hfails, -⟩ | ⟨n, l, v, left, x, -, hwrite, hdone, -, -⟩
  · rw [hfails] at h
    cases h
    obtain ⟨fault, rfl⟩ := (keeps_catalogRecord o j (r.inSession session)).2.2 e (by rw [hentry])
    exact .inl rfl
  · rw [hdone] at h
    cases h
    rcases VolumeWriter.error_of_store hwrite with hwriting | ⟨problem, rfl⟩
    · exact hwriting.scope
    · exact .inl rfl

section Run
variable [BlockSource σ] {o : JobOptions} {rules : Rules} {sourceKey sinkKey : Option VolumeKey}
  {nonce : Nonce} {session : Session} {source : σ} {sink : κ} {catalog : γ}

/-- If sealing does not fail, a migration is not aborted for a single record, nor for a single block
if it is to proceed. -/
theorem mayEnd_run {a : Aborted}
    (h : (run o rules sourceKey sinkKey nonce session source sink catalog).result = .error a)
    (hsealed : a.cause ≠ .crypto .encryptionFailed) : a.cause.MayEnd o.proceed := by
  obtain ⟨j, s, x, hj⟩ : ∃ j s x, Job.run o.proceed rules (handle o session)
    ({ writer := .create sink o.blockSize session o.blockChecksums sinkKey nonce, catalog } :
      Migration κ γ) ({ source, verify := o.verifyChecksums, key := sourceKey } : VolumeReader σ)
      = (j, s, x) := ⟨_, _, _, rfl⟩
  rw [run_eq hj] at h
  rcases error_of_firstFailure (Job.cause_of_result h) with hended | htold
  · rcases error_of_firstFailure hended with hjob | hclosing
    · rw [hjob] at hj
      rcases Job.mayEnd_of_run (fun _ _ _ _ hr => scope_of_handle hr) hj with hmay | hscope
      · exact hmay
      · exact Failure.mayEnd_of_job (hscope.resolve_right hsealed) o.proceed
    · refine Failure.mayEnd_of_job ?_ o.proceed
      simp only [List.mem_cons, List.not_mem_nil, or_false] at hclosing
      rcases hclosing with hflushed | hsource | hsink
      · rw [flushed] at hflushed
        split at hflushed
        · have hfails := VolumeWriter.flushes j.work.writer
          rw [← hflushed] at hfails
          exact (VolumeWriter.error_of_flush hfails).scope.resolve_right hsealed
        · cases hflushed
      · obtain ⟨fault, hcause⟩ := exists_of_mapError hsource
        rw [hcause]
        rfl
      · obtain ⟨fault, hcause⟩ := exists_of_mapError hsink
        rw [hcause]
        rfl
  · simp only [List.mem_cons, List.not_mem_nil, or_false] at htold
    obtain ⟨fault, hcause⟩ := exists_of_mapError htold
    rw [hcause]
    exact Failure.mayEnd_of_job rfl o.proceed

/-- Without damage a migration does the same whether it is to proceed or not. -/
theorem run_undamaged (h : Finding.failures (
      { source, verify := o.verifyChecksums, key := sourceKey } : VolumeReader σ).readAll.1 = []) :
    run { o with proceed := false } rules sourceKey sinkKey nonce session source sink catalog
      = run { o with proceed := true } rules sourceKey sinkKey nonce session source sink
        catalog := by
  obtain ⟨j, s, x, hj⟩ : ∃ j s x, Job.run true rules (handle o session)
    ({ writer := .create sink o.blockSize session o.blockChecksums sinkKey nonce, catalog } :
      Migration κ γ) ({ source, verify := o.verifyChecksums, key := sourceKey } : VolumeReader σ)
      = (j, s, x) := ⟨_, _, _, rfl⟩
  have hstrict := (Job.run_undamaged h).trans hj
  rw [run_eq (o := { o with proceed := false }) hstrict,
    run_eq (o := { o with proceed := true }) hj]

/-- A migration that has been started has passed nothing. -/
theorem Passing.start (hcatalog : CommitsAll catalog) :
    let writer := VolumeWriter.create sink o.blockSize session o.blockChecksums sinkKey nonce
    Passing o session sink writer { migration := { writer, catalog } } [] :=
  ⟨VolumeWriter.unhindered_create sink o.blockSize session o.blockChecksums sinkKey nonce, rfl,
    ⟨fun _ => rfl, hcatalog⟩, rfl⟩

/-- A migration that is to proceed passes all records that it admits. -/
theorem passed_lenient (hc : rules.cancellation = .never) (hs : BlockSink.AcceptsAll sink)
    (reader : VolumeReader σ) {new : VolumeWriter κ} {w : Tracked κ γ}
    (hw : Passing o session sink new w [])
    (hseals : new.SealsAll (((Finding.records reader.readAll.1).filter rules.admits).map
      (Record.inSession session))) :
    (Job.run true rules (track o session) w reader).1.work.passed
      = ((Finding.records reader.readAll.1).filter rules.admits).map
        (Record.inSession session) := by
  -- What has been passed, followed by what is still to come, is all that is admitted.
  obtain ⟨k, s, x, hrun, rs, hall, hpassing⟩ : ∃ k s x,
      Job.run true rules (track o session) w reader = (k, s, x) ∧
      ∃ rs, rs ++ [] = (Finding.records reader.readAll.1).filter rules.admits ∧
        Passing o session sink new k.work rs := by
    refine Job.run_lenient hc (fun v _ left => ∃ rs, rs ++ left = (Finding.records
      reader.readAll.1).filter rules.admits ∧ Passing o session sink new v rs) (fun _ _ _ h => h) ?_
      ⟨[], rfl, hw⟩
    rintro j r left ⟨rs, hall, hpassing⟩
    rw [List.append_cons] at hall
    rw [← hall, List.map_append] at hseals
    obtain ⟨k, hk, hnext, hcount, -⟩ := hpassing.track hs hseals.of_append
    exact ⟨k, hk, ⟨rs ++ [r], hall, hnext⟩, hcount⟩
  rw [List.append_nil] at hall
  rw [hrun, hpassing.passed, hall]

/-- A migration that is not to proceed passes the records before the first damage, and counts the
damage besides the records among them that cannot be cataloged. -/
theorem passed_damaged (hc : rules.cancellation = .never) (hs : BlockSink.AcceptsAll sink)
    {reader : VolumeReader σ} {before after : List Finding} {e : Failure}
    (hread : reader.readAll.1 = before ++ .damage e :: after)
    (hbefore : Finding.failures before = []) {new : VolumeWriter κ} {w : Tracked κ γ}
    (hw : Passing o session sink new w [])
    (hseals : new.SealsAll (((Finding.records before).filter rules.admits).map
      (Record.inSession session))) :
    let rs := (Finding.records before).filter rules.admits
    ∃ k s, Job.run false rules (track o session) w reader = (k, s, .error e) ∧
      k.work.passed = rs.map (Record.inSession session) ∧
      k.counts.records = rs.length ∧ k.counts.errors = rs.countP Record.isUnreadable + 1 := by
  intro rs
  -- As above, and the only errors so far are those of records that were passed.
  obtain ⟨k, s, n, hrun, ⟨passed, hall, hpassing, rfl⟩, herrors, hcount⟩ : ∃ k s n,
      Job.run false rules (track o session) w reader = (k, s, .error e) ∧
      (∃ passed, passed ++ [] = rs ∧ Passing o session sink new k.work passed ∧
        n = passed.countP Record.isUnreadable) ∧
      k.counts.errors = n + 1 ∧ k.counts.records = rs.length := by
    refine Job.run_damaged hc (fun v n left => ∃ passed, passed ++ left = rs ∧
      Passing o session sink new v passed ∧ n = passed.countP Record.isUnreadable) hread hbefore ?_
      ⟨[], rfl, hw, rfl⟩
    rintro j r left ⟨passed, hall, hpassing, hn⟩
    rw [List.append_cons] at hall
    have hnow := hseals
    rw [show (Finding.records before).filter rules.admits = rs from rfl, ← hall, List.map_append]
      at hnow
    obtain ⟨k, hk, hnext, hcount, herrors⟩ := hpassing.track hs hnow.of_append
    refine ⟨k, hk, ⟨passed ++ [r], hall, hnext, ?_⟩, hcount⟩
    rw [herrors, hn, List.countP_append, List.countP_singleton]
  rw [List.append_nil] at hall
  obtain rfl := hall
  exact ⟨k, s, hrun, hpassing.passed, hcount, herrors⟩

end Run

/-- Keeping what a migration passes to its writer changes nothing about it. If it is not to proceed,
it passes the beginning of what it passes otherwise, and without damage there is no difference at
all. If neither the sink, sealing nor the catalog fails, a migration that is to proceed passes all
records that it admits, and one that is not is aborted by the first damage: it has passed the records
before, and has counted this damage once, besides the records that cannot be cataloged. Neither a
migration whose blocks can be sealed nor an extraction, whatever its creator, is aborted for a single
record, nor for a single block if it is to proceed. -/
theorem error_policy [BlockSource σ] (o : JobOptions) (rules : Rules)
    (sourceKey sinkKey : Option VolumeKey) (nonce : Nonce) (session : Session) (source : σ)
    (sink : κ) (catalog : γ) :
    let reader : VolumeReader σ := { source, verify := o.verifyChecksums, key := sourceKey }
    let start : Migration κ γ :=
      { writer := .create sink o.blockSize session o.blockChecksums sinkKey nonce, catalog }
    let loop (proceed : Bool) :=
      Job.run proceed rules (track o session) { migration := start } reader
    let copy (proceed : Bool) :=
      run { o with proceed } rules sourceKey sinkKey nonce session source sink catalog
    let copies (fs : List Finding) :=
      ((Finding.records fs).filter rules.admits).map (Record.inSession session)
    (∀ proceed, Job.run proceed rules (handle o session) start reader
      = ((loop proceed).1.map Tracked.migration, (loop proceed).2)) ∧
    (loop false).1.work.passed <+: (loop true).1.work.passed ∧
    (Finding.failures reader.readAll.1 = [] → loop false = loop true ∧ copy false = copy true) ∧
    (rules.cancellation = .never → BlockSink.AcceptsAll sink →
      start.writer.SealsAll (copies reader.readAll.1) → CommitsAll catalog →
      (loop true).1.work.passed = copies reader.readAll.1 ∧
      ∀ e es, Finding.failures reader.readAll.1 = e :: es →
        ∃ a before after, reader.readAll.1 = before ++ .damage e :: after ∧
          Finding.failures before = [] ∧ (loop false).1.work.passed = copies before ∧
          (copy false).result = .error a ∧ a.cause = e ∧ e.scope = .block ∧
          a.summary.status = .failed ∧ a.summary.records = (copies before).length ∧
          a.summary.errors = 1 + (copies before).countP Record.isUnreadable) ∧
    (∀ proceed a, (copy proceed).result = .error a → a.cause ≠ .crypto .encryptionFailed →
      a.cause.MayEnd proceed) ∧
    ∀ {φ η : Type} [FileCreator φ η] (filter : Selection.PathFilter) (decoder : Decoder)
      (creator : φ) (proceed : Bool) (a : Aborted),
      (Extraction.run { o with proceed } rules filter decoder sourceKey creator source).result
        = .error a → a.cause.MayEnd proceed := by
  intro reader start loop copy copies
  have hplain (proceed : Bool) : Job.run proceed rules (handle o session) start reader
      = ((loop proceed).1.map Tracked.migration, (loop proceed).2) :=
    Job.run_map proceed rules Tracked.migration (handle_migration o session)
      { migration := start } reader
  refine ⟨hplain, ?_, fun h => ⟨Job.run_undamaged h, run_undamaged h⟩,
    fun hc hs hseals hcatalog => ?_, fun proceed a h => mayEnd_run h, fun filter decoder creator proceed a h =>
      Extraction.mayEnd_run h⟩
  · exact Job.run_strict (R := fun a b : Tracked κ γ => a.passed <+: b.passed)
      (fun _ => List.prefix_rfl) List.IsPrefix.trans (passed_prefix_track o session)
  · have hnew : Passing o session sink start.writer { migration := start } [] :=
      Passing.start hcatalog
    refine ⟨passed_lenient hc hs reader hnew hseals, fun e es hfailures => ?_⟩
    obtain ⟨before, after, hread, hbefore⟩ := Finding.exists_of_failures hfailures
    have hscope : e.scope = .block :=
      VolumeReader.scope_of_mem_readAll (r := reader) (by simp [hread])
    have hearlier : start.writer.SealsAll (copies before) := by
      simp only [copies, hread, Finding.records_append, List.filter_append, List.map_append] at hseals
      exact hseals.of_append
    obtain ⟨k, s, hrun, hpassed, hrecords, herrors⟩ :=
      passed_damaged hc hs hread hbefore hnew hearlier
    have hloop : loop false = (k, s, .error e) := hrun
    have hstrict := hplain false
    rw [hloop] at hstrict
    have haborted : (copy false).result
        = .error ⟨(k.map Tracked.migration).summary s.stats .failed, e⟩ := by
      simp only [copy]
      rw [run_eq (o := { o with proceed := false }) hstrict, ended, firstFailure_error,
        firstFailure_error]
      rfl
    refine ⟨_, before, after, hread, hbefore, by rw [hloop, hpassed], haborted, rfl, hscope, rfl,
      ?_, ?_⟩
    · rw [List.length_map]
      exact hrecords
    · rw [List.countP_map, Nat.add_comm]
      exact herrors

/-- Of three records of a volume with a cut-off block, a migration that is not to proceed passes
the two before that block. -/
theorem error_policy_memory :
    let whole : MemoryVolume := .ofBlocks "volume" [Extraction.firstBlock]
    let source : MemoryVolume := .ofBlocks "volume" Extraction.damagedBlocks
    let sink : MemoryVolume := { name := "new" }
    let damage : Failure := .header (.badLength 60 24 40)
    let loop (proceed : Bool) := Job.run proceed {} (track {} ⟨7, 9⟩)
      ({ migration := { writer := .create sink defaultBlockSize ⟨7, 9⟩ true none ⟨0⟩
                        catalog := NoCatalog.mk } } : Tracked MemoryVolume NoCatalog)
      ({ source } : VolumeReader MemoryVolume)
    let copy (proceed : Bool) (source : MemoryVolume) :=
      run { proceed } {} none none ⟨0⟩ ⟨7, 9⟩ source sink NoCatalog.mk
    let extraction := Extraction.run {} {} {} (Decoder.create {}) none Accepting.accepting source
    copy false whole = copy true whole ∧
      (loop true).1.work.passed
        = [Extraction.describing 1 49 97, Extraction.filling 1 [1] 0,
            Extraction.filling 2 [2] 2].map (Record.inSession ⟨7, 9⟩) ∧
      (loop false).1.work.passed
        = [Extraction.describing 1 49 97, Extraction.filling 1 [1] 0].map
            (Record.inSession ⟨7, 9⟩) ∧
      (∃ a, (copy false source).result = .error a ∧ a.cause = damage ∧
        a.summary.status = .failed ∧ a.summary.records = 2 ∧ a.summary.errors = 1 ∧
        a.cause.MayEnd false) ∧
      ∃ a, extraction.result = .error a ∧ a.cause = damage ∧ a.cause.MayEnd false := by
  intro whole source sink damage loop copy extraction
  obtain ⟨_, hwhole⟩ := Extraction.readAll_firstBlock
  obtain ⟨_, hdamagedBlocks⟩ := Extraction.readAll_damagedBlocks
  have hread : ({ source } : VolumeReader MemoryVolume).readAll.1
      = [.record (Extraction.describing 1 49 97), .record (Extraction.filling 1 [1] 0)]
        ++ .damage damage :: [.record (Extraction.filling 2 [2] 2)] := by
    rw [hdamagedBlocks]
    rfl
  obtain ⟨-, -, hsame, -⟩ :=
    error_policy {} {} none none ⟨0⟩ ⟨7, 9⟩ whole sink NoCatalog.mk
  obtain ⟨-, -, -, hfails, hmigration, hextraction⟩ :=
    error_policy {} {} none none ⟨0⟩ ⟨7, 9⟩ source sink NoCatalog.mk
  have hundamaged : Finding.failures ({ source := whole } : VolumeReader MemoryVolume).readAll.1
      = [] := by
    rw [hwhole]
    rfl
  have hdamaged : Finding.failures ({ source } : VolumeReader MemoryVolume).readAll.1
      = [damage] := by
    rw [hread]
    rfl
  obtain ⟨hlenient, hstrict⟩ :=
    hfails rfl (MemoryVolume.acceptsAll (v := { name := "new" }) rfl)
      ((VolumeWriter.hasRoom_create sink _ _ _ none _).sealsAll (.inl rfl) _) commitsAll_noCatalog
  obtain ⟨a, before, after, hsplit, hbefore, hpassed, hresult, hcause, -, hstatus, hrecords,
    herrors⟩ := hstrict damage [] hdamaged
  rw [hread] at hsplit
  obtain rfl := Finding.eq_of_first_failure hsplit rfl hbefore
  obtain ⟨s, hextracted⟩ : ∃ s, Job.run false {} (Extraction.handle {} {})
      { creator := Accepting.accepting, decoder := Decoder.create {} }
      ({ source } : VolumeReader MemoryVolume) = (_, s, .error damage) :=
    Job.run_of_damage rfl hread (Prod.ext rfl (Option.isNone_iff_eq_none.mp (by decide +kernel)))
  obtain ⟨found, haborted⟩ : ∃ found, extraction.result = .error ⟨found, damage⟩ :=
    Extraction.exists_result_of_error hextracted
  refine ⟨(hsame hundamaged).2, ?_, ?_, ⟨a, hresult, hcause, hstatus, ?_, ?_,
    hmigration false a hresult (by rw [hcause]; nofun)⟩, _, haborted, rfl,
    hextraction {} (Decoder.create {}) Accepting.accepting false _ haborted⟩
  · rw [hlenient, hread]
    rfl
  · rw [hpassed]
    decide +kernel
  · rw [hrecords]
    decide +kernel
  · rw [herrors]
    decide +kernel

end BackupVolume.Migration
