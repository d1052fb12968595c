import BackupVolume.Proofs.Migration.Closing
import BackupVolume.Proofs.Volume.RoundTrip

/-! # What a copy holds

Every record that a migration works on is laid down under the new session, payload and all, and the
catalog can still be told of everything. So a migration that goes through its source ends with a
volume of these records.
-/
namespace BackupVolume.Migration
variable {σ κ γ : Type} [BlockSink κ] [Catalog γ]

/-- The migration went through its source, past some damaged blocks, and these records are read back
from what its sink was handed before it was released. -/
def Outcome.Leaves (σ' : Type) [BlockSource σ'] (x : Outcome σ κ γ) (sink : κ)
    (key : Option VolumeKey) (session : Session) (corruptBlocks : Nat) (rs : List Record) : Prop :=
  ∃ (summary : Summary) (blocks : List Bytes),
    x.result = .ok summary ∧ summary.status = .terminated ∧ summary.records = rs.length ∧
    summary.corruptBlocks = corruptBlocks ∧
    x.sink = (BlockSink.release (BlockSink.writeAll sink blocks).1).1 ∧
    ReadsBack σ' key session blocks rs

def CommitsAll (catalog : γ) : Prop := ∀ es, (commit catalog es).2 = .ok ()

structure Commits (o : JobOptions) (m : Migration κ γ) : Prop where
  spool : o.spoolAttributes = false → m.spool = #[]
  commit (es : List CatalogEntry) : (Migration.commit m.catalog (m.spool.toList ++ es)).2 = .ok ()

theorem CommitsAll.insert {catalog : γ} (h : CommitsAll catalog) (e : CatalogEntry) :
    (Catalog.insert catalog e).2 = .ok () ∧ CommitsAll (Catalog.insert catalog e).1 := by
  have hall (es : List CatalogEntry) := h (e :: es)
  simp only [commit, insertAll] at hall
  rcases hi : Catalog.insert catalog e with ⟨next, x | ⟨⟨⟩⟩⟩
  · simp [hi] at hall
  · simp only [hi] at hall
    exact ⟨rfl, hall⟩

omit [BlockSink κ] in
theorem Commits.enter {o : JobOptions} {j : State κ γ} (h : Commits o j.work) (e : CatalogEntry) :
    ∃ k, enter o j e = (k, .ok ()) ∧ Commits o k.work ∧ k.work.writer = j.work.writer ∧
      k.counts.records = j.counts.records := by
  unfold Migration.enter
  by_cases hs : o.spoolAttributes = true
  · simp only [if_pos hs]
    refine ⟨_, rfl, ⟨by simp [hs], ?_⟩, rfl, rfl⟩
    intro es
    simpa using h.commit (e :: es)
  · have hempty : j.work.spool = #[] := h.spool (by simpa using hs)
    have hall : CommitsAll j.work.catalog := by
      intro es
      simpa [hempty] using h.commit es
    obtain ⟨hok, hnext⟩ := hall.insert e
    simp only [if_neg hs, hok]
    refine ⟨_, rfl, ⟨fun _ => hempty, ?_⟩, rfl, rfl⟩
    intro es
    simpa [hempty] using hnext es

omit [BlockSink κ] in
theorem Commits.catalogRecord {o : JobOptions} {j : State κ γ} (h : Commits o j.work)
    (r : Record) : ∃ k, catalogRecord o j r = (k, .ok ()) ∧ Commits o k.work ∧
      k.work.writer = j.work.writer ∧ k.counts.records = j.counts.records := by
  unfold Migration.catalogRecord
  rcases CatalogEntry.ofRecord r with e | _ | e
  · exact ⟨_, rfl, h, rfl, rfl⟩
  · exact ⟨_, rfl, h, rfl, rfl⟩
  · exact h.enter e

def Copied (o : JobOptions) (sink : κ) (key : Option VolumeKey) (session : Session)
    (m : Migration κ γ) (rs : List Record) : Prop :=
  Commits o m ∧ ∃ ps : List Placement,
    VolumeWriter.Holds sink key session m.writer (ps.flatMap Placement.pieces) ∧
    (∀ p ∈ ps, p.IsSound session) ∧ ps.map Placement.record = rs.map (Record.inSession session)

theorem Copied.handle {o : JobOptions} {sink : κ} (hs : BlockSink.AcceptsAll sink)
    {key : Option VolumeKey} {session : Session} {j : State κ γ} {rs : List Record}
    (h : Copied o sink key session j.work rs) {r : Record} (ht : 0 < r.tag.raw)
    (hl : r.payload.length < 2 ^ 32) :
    ∃ k, handle o session j r = (k, .ok ()) ∧ Copied o sink key session k.work (rs ++ [r]) ∧
      k.counts.records = j.counts.records := by
  obtain ⟨hcommits, ps, hholds, hsound, hrecords⟩ := h
  obtain ⟨k, hk, hkeeps, hwriter, hcount⟩ := hcommits.catalogRecord (r.inSession session)
  rw [← hwriter] at hholds
  obtain ⟨v, left, hv, hheld, hplaced⟩ := hholds.writeRecord hs (r := r.inSession session) ht hl
  have hcatalog : Migration.catalogRecord o j { r with session } = (k, .ok ()) := hk
  have hwrite : k.work.writer.writeRecord { r with session } = (v, left, .ok ()) := hv
  generalize k.work.writer.placed (.whole (r.inSession session)) = qs at hheld hplaced
  unfold Migration.handle
  simp only [hcatalog, hwrite]
  refine ⟨_, rfl, ⟨⟨hkeeps.spool, hkeeps.commit⟩, ps ++ [⟨r.inSession session, qs⟩], ?_, ?_, ?_⟩,
    hcount⟩
  · rw [List.flatMap_append, List.flatMap_singleton]
    exact hheld
  · intro p hp
    rcases List.mem_append.mp hp with hp | hp
    · exact hsound p hp
    · rw [List.mem_singleton.mp hp]
      exact hplaced
  · rw [List.map_append, List.map_append, hrecords]
    rfl

theorem copied_create (o : JobOptions) (sink : κ) {blockSize : Nat} (hb : blockSize ≤ maxBlockLength)
    (session : Session) (checksums : Bool) (key : Option VolumeKey) (nonce : Nonce) {catalog : γ}
    (hcatalog : CommitsAll catalog) :
    Copied o sink key session
      { writer := .create sink blockSize session checksums key nonce, catalog } [] :=
  ⟨⟨fun _ => rfl, fun es => hcatalog es⟩, [],
    VolumeWriter.holds_create sink hb session checksums key nonce, by simp, rfl⟩

/-- A migration that goes through its source has copied the records it worked on. -/
theorem copied_loop [BlockSource σ] {o : JobOptions} (hb : o.blockSize ≤ maxBlockLength)
    {rules : Rules} (hc : rules.cancellation = .never) (sinkKey : Option VolumeKey)
    (nonce : Nonce) (session : Session) {reader s : VolumeReader σ} {fs : List Finding}
    (hr : reader.readAll = (fs, s, .endOfData))
    (hd : Finding.failures fs = [] ∨ o.proceed = true)
    (hg : ∀ r ∈ (Finding.records fs).filter rules.admits,
      0 < r.tag.raw ∧ r.payload.length < 2 ^ 32)
    {sink : κ} (hs : BlockSink.AcceptsAll sink) {catalog : γ} (hcatalog : CommitsAll catalog) :
    ∃ k, Job.run o.proceed rules (handle o session) ({
        writer := .create sink o.blockSize session o.blockChecksums sinkKey nonce
        catalog } : Migration κ γ) reader = (k, s, .ok .terminated) ∧
      Copied o sink sinkKey session k.work ((Finding.records fs).filter rules.admits) ∧
      k.counts.records = ((Finding.records fs).filter rules.admits).length := by
  have hnew := copied_create o sink hb session o.blockChecksums sinkKey nonce hcatalog
  have hstep (j : State κ γ) (r : Record) (ys : List Record)
      (hi : ∃ xs, xs ++ r :: ys = (Finding.records fs).filter rules.admits ∧
        Copied o sink sinkKey session j.work xs) :
      ∃ k, handle o session j r = (k, .ok ()) ∧
        (∃ xs, xs ++ ys = (Finding.records fs).filter rules.admits ∧
          Copied o sink sinkKey session k.work xs) ∧
        k.counts.records = j.counts.records := by
    obtain ⟨xs, hsplit, hcopied⟩ := hi
    obtain ⟨ht, hl⟩ := hg r (by rw [← hsplit]; simp)
    obtain ⟨k, hk, hcopied, hcount⟩ := hcopied.handle hs ht hl
    exact ⟨k, hk, ⟨xs ++ [r], by simpa using hsplit, hcopied⟩, hcount⟩
  obtain ⟨k, hrun, ⟨xs, hall, hcopied⟩, hcount⟩ :=
    Job.run_terminated (fun m _ ys => ∃ xs, xs ++ ys = (Finding.records fs).filter rules.admits ∧
        Copied o sink sinkKey session m xs)
      hc hr (hd.imp id fun hp => ⟨hp, fun _ _ _ h => h⟩) hstep ⟨[], rfl, hnew⟩
  rw [List.append_nil] at hall
  subst hall
  exact ⟨k, hrun, hcopied, hcount⟩

/-- A migration that goes through its source ends, and its sink has the records it worked on. -/
theorem run_copied (σ' : Type) [BlockSource σ] [BlockSource σ'] {o : JobOptions}
    (hb : o.blockSize ≤ maxBlockLength) (rules : Rules) (hc : rules.cancellation = .never)
    {sourceKey : Option VolumeKey} (sinkKey : Option VolumeKey) (nonce : Nonce) (session : Session)
    {source : σ} {fs : List Finding} {s : VolumeReader σ}
    (hr : ({ source, verify := o.verifyChecksums, key := sourceKey } : VolumeReader σ).readAll
      = (fs, s, .endOfData))
    (hd : Finding.failures fs = [] ∨ o.proceed = true)
    (hg : ∀ r ∈ (Finding.records fs).filter rules.admits,
      0 < r.tag.raw ∧ r.payload.length < 2 ^ 32)
    (hsource : (BlockSource.release s.source).2 = .ok ())
    {sink : κ} (hs : BlockSink.AcceptsAll sink)
    (hsink : ∀ bs, (BlockSink.release (BlockSink.writeAll sink bs).1).2 = .ok ())
    {catalog : γ} (hcatalog : CommitsAll catalog) :
    (run o rules sourceKey sinkKey nonce session source sink catalog).Leaves σ' sink sinkKey session
      s.stats.corruptBlocks ((Finding.records fs).filter rules.admits) := by
  obtain ⟨k, hrun, ⟨hcommits, ps, hholds, hsound, hrecords⟩, hcount⟩ := copied_loop hb
    hc sinkKey nonce session hr hd hg hs hcatalog
  obtain ⟨v, blocks, hflush, hheld, -, hshown⟩ := hholds.closed hs
  have hread := hshown.readsBack σ' hsound
  rw [hrecords] at hread
  have hcommit := hcommits.commit []
  rw [List.append_nil] at hcommit
  have hflushed : flushed k.work.writer (.ok .terminated) = (v, .ok ()) := hflush
  have hended : ended k.work.writer s (.ok .terminated) = .ok .terminated :=
    ended_of_ok (by rw [hflushed]) hsource (by rw [hflushed, hheld, hsink])
  have hresult : run o rules sourceKey sinkKey nonce session source sink catalog
      = { source := (BlockSource.release s.source).1
          sink := (BlockSink.release (BlockSink.writeAll sink blocks).1).1
          catalog := (commit k.work.catalog k.work.spool.toList).1
          result := .ok (k.summary s.stats .terminated) } := by
    rw [run_eq hrun, hended, hflushed, hheld, told, hcommit]
    rfl
  exact ⟨_, blocks, by rw [hresult], rfl, hcount, rfl, by rw [hresult], readsBack_inSession hread⟩

end BackupVolume.Migration
