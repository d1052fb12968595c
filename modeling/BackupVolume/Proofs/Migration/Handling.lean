import BackupVolume.Migration.Copy
import BackupVolume.Proofs.Job.Course
import BackupVolume.Proofs.Volume.Recording

/-! # Copying one record

A record that a migration works on is refused by the catalog, or passed to the writer under the new
session. Nothing else is done to the writer: it is what it becomes of these records.
-/
namespace BackupVolume.Migration
variable {σ κ γ : Type} [BlockSink κ] [Catalog γ]

/-- The records that have been passed to the writer while a migration worked on some records: all of
them under the new session, but for one whose entry the catalog has refused. -/
inductive Passed (o : JobOptions) (session : Session) (m : Migration κ γ) :
    List Record → List Record → Migration κ γ → Prop
  | none : Passed o session m [] [] m
  | written {rs qs : List Record} {r : Record} {j k : State κ γ} :
    Passed o session m rs qs j.work →
    catalogRecord o j (r.inSession session) = (k, .ok ()) →
    Passed o session m (rs ++ [r]) (qs ++ [r.inSession session])
      { k.work with writer := (k.work.writer.writeRecord (r.inSession session)).1 }
  | refused {rs qs : List Record} {r : Record} {j k : State κ γ} {e : Failure} :
    Passed o session m rs qs j.work →
    catalogRecord o j (r.inSession session) = (k, .error e) →
    Passed o session m (rs ++ [r]) qs k.work

omit [BlockSink κ] in
theorem keeps_enter (o : JobOptions) (j : State κ γ) (entry : CatalogEntry) :
    (enter o j entry).1.work.writer = j.work.writer ∧
      (enter o j entry).1.counts.records = j.counts.records ∧
      ∀ e, (enter o j entry).2 = .error e → ∃ fault, e = .catalog fault := by
  unfold enter
  by_cases hs : o.spoolAttributes = true
  · simp only [if_pos hs]
    exact ⟨trivial, trivial, fun e he => by cases he⟩
  · simp only [if_neg hs]
    rcases Catalog.insert j.work.catalog entry with ⟨catalog, fault | ⟨⟨⟩⟩⟩
    · exact ⟨trivial, trivial, fun e he => ⟨fault, (Except.error.inj he).symm⟩⟩
    · exact ⟨trivial, trivial, fun e he => by cases he⟩

omit [BlockSink κ] in
/-- Only the catalog can refuse an entry, and the writer does not learn of it. -/
theorem keeps_catalogRecord (o : JobOptions) (j : State κ γ) (r : Record) :
    (catalogRecord o j r).1.work.writer = j.work.writer ∧
      (catalogRecord o j r).1.counts.records = j.counts.records ∧
      ∀ e, (catalogRecord o j r).2 = .error e → ∃ fault, e = .catalog fault := by
  unfold catalogRecord
  split
  · exact ⟨rfl, rfl, fun e he => by cases he⟩
  · exact keeps_enter o j _
  · exact ⟨rfl, rfl, fun e he => by cases he⟩

/-- A record is refused by the catalog, or passed to the writer. -/
theorem handle_cases (o : JobOptions) (session : Session) (j : State κ γ) (r : Record) :
    (∃ k e, catalogRecord o j (r.inSession session) = (k, .error e) ∧
      handle o session j r = (k, .error e) ∧ k.counts.records = j.counts.records) ∨
    ∃ k l v left x, catalogRecord o j (r.inSession session) = (k, .ok ()) ∧
      k.work.writer.writeRecord (r.inSession session) = (v, left, x) ∧
      handle o session j r = (l, x) ∧ l.work = { k.work with writer := v } ∧
      l.counts.records = j.counts.records := by
  have hcount := (keeps_catalogRecord o j (r.inSession session)).2.1
  rcases hcatalog : catalogRecord o j (r.inSession session) with ⟨k, e | ⟨⟨⟩⟩⟩
  all_goals rw [hcatalog] at hcount
  · have hentry : catalogRecord o j { r with session } = (k, .error e) := hcatalog
    exact .inl ⟨k, e, rfl, by simp only [handle, hentry], hcount⟩
  · have hentry : catalogRecord o j { r with session } = (k, .ok ()) := hcatalog
    rcases hwrite : k.work.writer.writeRecord (r.inSession session) with ⟨v, left, x⟩
    have hstore : k.work.writer.writeRecord { r with session } = (v, left, x) := hwrite
    have hhandle : handle o session j r = ({ k with
        work := { k.work with writer := v }
        counts := { k.counts with bytes := k.counts.bytes + r.payload.length } }, x) := by
      simp only [handle, hentry, hstore]
    exact .inr ⟨k, _, v, left, x, rfl, hwrite, hhandle, rfl, hcount⟩

theorem records_handle (o : JobOptions) (session : Session) (j : State κ γ) (r : Record) :
    (handle o session j r).1.counts.records = j.counts.records := by
  rcases handle_cases o session j r with
    ⟨k, e, -, h, hcount⟩ | ⟨k, l, v, left, x, -, -, h, -, hcount⟩
  · rw [h, hcount]
  · rw [h, hcount]

/-- Migrations that tell their catalogs alike and write alike handle every record alike. -/
theorem handle_map {κ' γ' : Type} [BlockSink κ'] [Catalog γ'] {o o' : JobOptions}
    {f : Migration κ γ → Migration κ' γ'}
    (hcatalog : ∀ j r, catalogRecord o' (j.map f) r
      = ((catalogRecord o j r).1.map f, (catalogRecord o j r).2))
    (hwriter : ∀ m r, { f m with writer := ((f m).writer.writeRecord r).1 }
        = f { m with writer := (m.writer.writeRecord r).1 } ∧
      ((f m).writer.writeRecord r).2.2 = (m.writer.writeRecord r).2.2)
    (session : Session) (j : State κ γ) (r : Record) :
    handle o' session (j.map f) r
      = ((handle o session j r).1.map f, (handle o session j r).2) := by
  simp only [handle, hcatalog]
  rcases catalogRecord o j { r with session } with ⟨k, e | ⟨⟨⟩⟩⟩
  · rfl
  · obtain ⟨hwork, hresult⟩ := hwriter k.work { r with session }
    simp only [Job.map, hwork, hresult]

section Passed
variable {o : JobOptions} {session : Session} {m v : Migration κ γ} {rs qs : List Record}

theorem exists_passed (h : Job.Worked (handle o session) m rs v) :
    ∃ qs, Passed o session m rs qs v := by
  induction h with
  | none => exact ⟨[], .none⟩
  | @more rs r j k x _ hhandle ih =>
    obtain ⟨qs, hqs⟩ := ih
    rcases handle_cases o session j r with
      ⟨n, e, hentry, hfails, -⟩ | ⟨n, l, u, left, y, hentry, hwrite, hdone, hwork, -⟩
    · rw [hfails] at hhandle
      cases hhandle
      exact ⟨qs, hqs.refused hentry⟩
    · rw [hdone] at hhandle
      cases hhandle
      have hwritten := hqs.written hentry
      rw [hwrite, ← hwork] at hwritten
      exact ⟨_, hwritten⟩

/-- The writer does nothing but store what it is passed. -/
theorem Passed.writer (h : Passed o session m rs qs v) :
    v.writer = m.writer.proceedAll (qs.map .record) := by
  induction h with
  | none => rfl
  | @written rs qs r j k _ hentry ih =>
    have hkeeps := (keeps_catalogRecord o j (r.inSession session)).1
    rw [hentry] at hkeeps
    rw [List.map_append, VolumeWriter.proceedAll_append, ← ih, ← hkeeps]
    rfl
  | @refused rs qs r j k e _ hentry ih =>
    have hkeeps := (keeps_catalogRecord o j (r.inSession session)).1
    rw [hentry] at hkeeps
    rw [← ih, ← hkeeps]

end Passed

end BackupVolume.Migration
