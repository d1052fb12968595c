import BackupVolume.Proofs.Migration.Closing
import BackupVolume.Proofs.Migration.Copying
import BackupVolume.Proofs.Migration.Entries
import BackupVolume.Proofs.Restore.Origins

/-! # When the catalog learns

A migration may tell its catalog of every entry at once, or hold the entries back until the copy has
succeeded. Both write the same blocks and come to the same result, and in the end the catalog has
learned the same. A catalog that was spooled for learns nothing of a copy that did not succeed.
-/
namespace BackupVolume

namespace Migration
variable {σ κ γ : Type} [BlockSink κ] [Catalog γ]

theorem insertAll_append {catalog : γ} {es : List CatalogEntry}
    (h : (insertAll catalog es).2 = .ok ()) (more : List CatalogEntry) :
    insertAll catalog (es ++ more) = insertAll (insertAll catalog es).1 more := by
  induction es generalizing catalog with
  | nil => rfl
  | cons e es ih =>
    simp only [List.cons_append, insertAll] at h ⊢
    rcases hi : Catalog.insert catalog e with ⟨next, x | ⟨⟨⟩⟩⟩
    · simp [hi] at h
    · simp only [hi] at h ⊢
      exact ih h

theorem CommitsAll.insertAll {catalog : γ} (h : CommitsAll catalog) (es : List CatalogEntry) :
    (insertAll catalog es).2 = .ok () ∧ CommitsAll (insertAll catalog es).1 := by
  induction es generalizing catalog with
  | nil => exact ⟨rfl, h⟩
  | cons e es ih =>
    obtain ⟨hok, hnext⟩ := h.insert e
    rcases hi : Catalog.insert catalog e with ⟨next, x | ⟨⟨⟩⟩⟩
    all_goals rw [hi] at hok hnext
    · cases hok
    · simp only [Migration.insertAll, hi]
      exact ih hnext

def withCatalog (catalog : γ) (spools : Bool) (m : Migration κ NoCatalog) : Migration κ γ :=
  if spools then { writer := m.writer, catalog, spool := m.spool }
  else { writer := m.writer, catalog := (insertAll catalog m.spool.toList).1 }

omit [BlockSink κ] in
theorem writer_withCatalog (catalog : γ) (spools : Bool) (m : Migration κ NoCatalog) :
    (m.withCatalog catalog spools).writer = m.writer := by
  cases spools <;> rfl

omit [BlockSink κ] in
theorem commit_withCatalog {catalog : γ} (hc : CommitsAll catalog) (spools : Bool)
    (m : Migration κ NoCatalog) :
    commit (m.withCatalog catalog spools).catalog (m.withCatalog catalog spools).spool.toList
      = commit catalog m.spool.toList := by
  cases spools with
  | true => rfl
  | false =>
    have hall := (hc.insertAll m.spool.toList).1
    rcases hi : insertAll catalog m.spool.toList with ⟨next, x | ⟨⟨⟩⟩⟩
    all_goals rw [hi] at hall
    · cases hall
    · simp only [withCatalog, commit, hi, Bool.false_eq_true, if_false]
      rfl

theorem handle_withCatalog {catalog : γ} (hc : CommitsAll catalog) (spools : Bool) (o : JobOptions)
    (session : Session) (j : State κ NoCatalog) (r : Record) :
    handle { o with spoolAttributes := spools } session (j.map (withCatalog catalog spools)) r
      = ((handle { o with spoolAttributes := true } session j r).1.map (withCatalog catalog spools),
        (handle { o with spoolAttributes := true } session j r).2) := by
  refine handle_map (fun j r => ?_) (fun m r => ?_) session j r
  · rw [catalogRecord, catalogRecord]
    rcases CatalogEntry.ofRecord r with x | _ | e
    · rfl
    · rfl
    · cases spools with
      | true => rfl
      | false =>
        obtain ⟨hall, hnext⟩ := hc.insertAll j.work.spool.toList
        have hpush : insertAll catalog (j.work.spool.push e).toList
            = insertAll (insertAll catalog j.work.spool.toList).1 [e] := by
          rw [Array.toList_push, insertAll_append hall]
        obtain ⟨hok, -⟩ := hnext.insert e
        rcases hi : Catalog.insert (insertAll catalog j.work.spool.toList).1 e with
          ⟨next, x | ⟨⟨⟩⟩⟩
        all_goals rw [hi] at hok
        · cases hok
        · have hlast : insertAll (insertAll catalog j.work.spool.toList).1 [e]
              = (next, .ok ()) := by
            simp only [insertAll, hi]
          simp only [enter, Job.map, withCatalog, Bool.false_eq_true, if_false, if_true, hpush, hlast,
            hi]
          rfl
  · cases spools <;> exact ⟨rfl, rfl⟩

omit [BlockSink κ] in
/-- At the end the catalog has been told everything; before, only one that is not spooled for. -/
theorem told_withCatalog {catalog : γ} (hc : CommitsAll catalog) (spools : Bool)
    (m : Migration κ NoCatalog) (x : Except Failure JobStatus) :
    (told (m.withCatalog catalog spools) x).2 = .ok () ∧
    (x = .ok .terminated →
      (told (m.withCatalog catalog spools) x).1 = (commit catalog m.spool.toList).1) ∧
    (x ≠ .ok .terminated → (told (m.withCatalog catalog spools) x).1
      = if spools then catalog else (insertAll catalog m.spool.toList).1) := by
  have hcommit := commit_withCatalog hc spools m
  have hunchanged : (m.withCatalog catalog spools).catalog
      = if spools then catalog else (insertAll catalog m.spool.toList).1 := by
    cases spools <;> rfl
  rcases x with e | status
  · exact ⟨rfl, fun h => (by cases h), fun _ => hunchanged⟩
  · cases status with
    | terminated =>
      simp only [told, hcommit]
      exact ⟨hc _, fun _ => trivial, fun h => absurd rfl h⟩
    | canceled => exact ⟨rfl, fun h => (by cases h), fun _ => hunchanged⟩
    | failed => exact ⟨rfl, fun h => (by cases h), fun _ => hunchanged⟩

/-- Spooling or not, a migration with a catalog does what the one without does that spools in vain. -/
theorem run_withCatalog [BlockSource σ] {catalog : γ} (hc : CommitsAll catalog) (spools : Bool)
    {o : JobOptions} {rules : Rules} {sourceKey sinkKey : Option VolumeKey} {nonce : Nonce}
    {session : Session} {source : σ} {sink : κ} {j : State κ NoCatalog} {reader : VolumeReader σ}
    {x : Except Failure JobStatus}
    (h : Job.run o.proceed rules (handle { o with spoolAttributes := true } session)
      { writer := .create sink o.blockSize session o.blockChecksums sinkKey nonce
        catalog := NoCatalog.mk }
      { source, verify := o.verifyChecksums, key := sourceKey } = (j, reader, x)) :
    let outcome := run { o with spoolAttributes := spools } rules sourceKey sinkKey nonce session
      source sink catalog
    outcome.source = (BlockSource.release reader.source).1 ∧
    outcome.sink = (BlockSink.release (flushed j.work.writer x).1.sink).1 ∧
    outcome.result = j.result reader.stats (ended j.work.writer reader x) ∧
    ((summaryOf outcome.result).status = .terminated →
      outcome.catalog = (commit catalog j.work.spool.toList).1) ∧
    ((summaryOf outcome.result).status ≠ .terminated →
      outcome.catalog = if spools then catalog else (insertAll catalog j.work.spool.toList).1) := by
  intro outcome
  have hstart : withCatalog catalog spools ({
      writer := .create sink o.blockSize session o.blockChecksums sinkKey nonce
      catalog := NoCatalog.mk } : Migration κ NoCatalog)
        = { writer := .create sink o.blockSize session o.blockChecksums sinkKey nonce, catalog } := by
    cases spools <;> rfl
  have hloop := Job.run_map o.proceed rules (withCatalog catalog spools)
    (handle_withCatalog hc spools o session)
    { writer := .create sink o.blockSize session o.blockChecksums sinkKey nonce
      catalog := NoCatalog.mk }
    ({ source, verify := o.verifyChecksums, key := sourceKey } : VolumeReader σ)
  rw [hstart, h] at hloop
  have hrun : outcome = _ := run_eq (o := { o with spoolAttributes := spools }) hloop
  have hwork : (j.map (withCatalog catalog spools)).work = j.work.withCatalog catalog spools := rfl
  rw [hwork, writer_withCatalog] at hrun
  obtain ⟨hok, hdone, hnot⟩ :=
    told_withCatalog hc spools j.work (ended j.work.writer reader x)
  have hresult : outcome.result = j.result reader.stats (ended j.work.writer reader x) := by
    simp only [hrun, hok, firstFailure, List.foldl_cons, List.foldl_nil]
    rcases ended j.work.writer reader x with e | status
    · rfl
    · rfl
  have hstatus := j.status_summaryOf_result reader.stats (ended j.work.writer reader x)
  rw [← hresult] at hstatus
  refine ⟨by rw [hrun], by rw [hrun], hresult, fun hterminated => ?_, fun hnever => ?_⟩
  · rw [hrun]
    exact hdone (hstatus.mp hterminated)
  · rw [hrun]
    exact hnot fun hterminated => hnever (hstatus.mpr hterminated)

/-- Spooling changes only when the catalog learns, never what. Two migrations that differ in nothing
else leave the same blocks and come to the same result. Both have copied the same first records,
undecodable attributes among them, each of which is an error and no entry. If they have come to the
end, the catalog has been told of all entries and then of the end; otherwise a catalog that is
spooled for has learned nothing, and the other one the entries so far. -/
theorem spools_run [BlockSource σ] (o : JobOptions) (rules : Rules)
    (sourceKey sinkKey : Option VolumeKey) (nonce : Nonce) (session : Session) (source : σ)
    (sink : κ) {catalog : γ} (hc : CommitsAll catalog) :
    let reader : VolumeReader σ := { source, verify := o.verifyChecksums, key := sourceKey }
    let start := VolumeWriter.create sink o.blockSize session o.blockChecksums sinkKey nonce
    let outcome (spools : Bool) := run { o with spoolAttributes := spools } rules sourceKey sinkKey
      nonce session source sink catalog
    let summary := summaryOf (outcome true).result
    (outcome true).source = (outcome false).source ∧
    (outcome true).sink = (outcome false).sink ∧
    (outcome true).result = (outcome false).result ∧
    ∃ shown, shown <+: reader.readAll.1 ∧
      let rs := (Finding.records shown).filter rules.admits
      let writer := start.proceedAll (rs.map fun r => .record (r.inSession session))
      let entries := CatalogEntry.all session rs
      summary.records = rs.length ∧
      summary.files = entries.countP CatalogEntry.isFile ∧
      summary.errors = (Finding.failures shown).length + rs.countP Record.isUnreadable ∧
      ((outcome true).sink = (BlockSink.release writer.flush.1.sink).1 ∨
        summary.status ≠ .terminated ∧ (outcome true).sink = (BlockSink.release writer.sink).1) ∧
      (summary.status = .terminated → shown = reader.readAll.1 ∧
        ∀ spools, (outcome spools).catalog = (commit catalog entries).1) ∧
      (summary.status ≠ .terminated → (outcome true).catalog = catalog ∧
        (outcome false).catalog = (insertAll catalog entries).1 ∧
        entries <+: CatalogEntry.all session
          ((Finding.records reader.readAll.1).filter rules.admits)) := by
  intro reader start outcome summary
  rcases hloop : Job.run o.proceed rules (handle { o with spoolAttributes := true } session)
    ({ writer := start, catalog := NoCatalog.mk } : Migration κ NoCatalog) reader with ⟨j, s, x⟩
  obtain ⟨shown, hshown, hspooled, hall⟩ := exists_spooled rfl rfl hloop
  obtain ⟨hsource, hsink, hresult, hdone, hnot⟩ := run_withCatalog hc true hloop
  obtain ⟨hsource', hsink', hresult', hdone', hnot'⟩ := run_withCatalog hc false hloop
  have hsame : (outcome true).result = (outcome false).result := hresult.trans hresult'.symm
  have hstatus := j.status_summaryOf_result s.stats (ended j.work.writer s x)
  rw [← hresult] at hstatus
  have hcounts : summary.records = j.counts.records ∧ summary.files = j.counts.files ∧
      summary.errors = j.counts.errors := by
    simp only [summary, outcome, hresult]
    cases ended j.work.writer s x <;> exact ⟨rfl, rfl, rfl⟩
  refine ⟨hsource.trans hsource'.symm, hsink.trans hsink'.symm, hsame, shown, hshown,
    hcounts.1.trans hspooled.records, hcounts.2.1.trans hspooled.files,
    hcounts.2.2.trans hspooled.errors, ?_, fun hterminated => ⟨?_, fun spools => ?_⟩,
    fun hnever => ⟨?_, ?_, ?_⟩⟩
  · rw [hsink, flushed, hspooled.writer]
    by_cases hflush : (x.isOk || BlockSink.canWrite (start.proceedAll (((Finding.records
        shown).filter rules.admits).map fun r => .record (r.inSession session))).sink) = true
    · rw [if_pos hflush]
      exact .inl rfl
    · rw [if_neg hflush]
      refine .inr ⟨fun hterminated => hflush ?_, rfl⟩
      rw [ok_of_firstFailure (hstatus.mp hterminated)]
      rfl
  · exact hall (ok_of_firstFailure (hstatus.mp hterminated))
  · rw [← hspooled.spool]
    cases spools with
    | true => exact hdone hterminated
    | false => exact hdone' (hsame ▸ hterminated)
  · exact hnot hnever
  · rw [← hspooled.spool]
    exact hnot' (hsame ▸ hnever)
  · exact ((Finding.records_prefix hshown).filter _).filterMap _

end Migration

structure EntryLog where
  entries : List CatalogEntry := []
  commits : Nat := 0

instance : Catalog EntryLog where
  insert log e := ({ log with entries := log.entries ++ [e] }, .ok ())
  commit log := ({ log with commits := log.commits + 1 }, .ok ())

theorem EntryLog.commit_eq (log : EntryLog) (es : List CatalogEntry) :
    Migration.commit log es = (⟨log.entries ++ es, log.commits + 1⟩, .ok ()) := by
  induction es generalizing log with
  | nil => simp [Migration.commit, Migration.insertAll, Catalog.commit]
  | cons e es ih =>
    have hcons : Migration.commit log (e :: es)
        = Migration.commit { log with entries := log.entries ++ [e] } es := rfl
    rw [hcons, ih, List.append_assoc]
    rfl

/-- Of a file with its data the catalog learns once, spooled for or not. -/
theorem Migration.spools_run_memory :
    let source : MemoryVolume := .ofBlocks "volume" [Extraction.firstBlock]
    let outcome (spools : Bool) := run { spoolAttributes := spools } {} none none ⟨0⟩ ⟨7, 9⟩ source
      ({ name := "new" } : MemoryVolume) ({} : EntryLog)
    CommitsAll ({} : EntryLog) ∧
    (summaryOf (outcome true).result).status = .terminated ∧
    (outcome true).sink.blocks = (outcome false).sink.blocks ∧
    ∀ spools, (outcome spools).catalog = ⟨[.file ⟨7, 9⟩ 1 Extraction.firstAttributes], 1⟩ := by
  intro source outcome
  have hcommits : CommitsAll ({} : EntryLog) := fun es => by rw [EntryLog.commit_eq]
  obtain ⟨s, hread⟩ := Extraction.readAll_firstBlock
  obtain ⟨summary, blocks, hresult, hstatus, -⟩ :=
    run_copied MemoryVolume (o := { spoolAttributes := true }) (by decide) {} rfl none ⟨0⟩ ⟨7, 9⟩
      hread (.inl rfl) (by decide) rfl (MemoryVolume.acceptsAll (v := { name := "new" }) rfl)
      (fun _ => rfl) hcommits
  have hterminated : (summaryOf (outcome true).result).status = .terminated := by
    simp only [outcome, source, hresult]
    exact hstatus
  obtain ⟨-, hsink, -, shown, -, -, -, -, -, hdone, -⟩ :=
    spools_run {} {} none none ⟨0⟩ ⟨7, 9⟩ source ({ name := "new" } : MemoryVolume) hcommits
  obtain ⟨rfl, hcatalog⟩ := hdone hterminated
  refine ⟨hcommits, hterminated, congrArg MemoryVolume.blocks hsink, fun spools => ?_⟩
  have hentries : CatalogEntry.all ⟨7, 9⟩ ((Finding.records ({ source } :
      VolumeReader MemoryVolume).readAll.1).filter (Rules.admits {}))
        = [.file ⟨7, 9⟩ 1 Extraction.firstAttributes] := by
    simp only [source, hread]
    decide +kernel
  have hlog := hcatalog spools
  rw [EntryLog.commit_eq] at hlog
  simp only [outcome]
  rw [hlog]
  exact congrArg (EntryLog.mk · 1) hentries

end BackupVolume
