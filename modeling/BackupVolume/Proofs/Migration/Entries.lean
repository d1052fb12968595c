import BackupVolume.Proofs.Migration.Handling
import Mathlib.Algebra.GroupWithZero.Nat

/-! # What a catalog is to learn

Of every record that is copied the catalog is to learn at most one entry, under the new session.
A migration that spools holds back exactly these entries, and counts files and errors by them.
-/
namespace BackupVolume

def Record.isUnreadable (r : Record) : Bool :=
  r.tag.isAttributes && !(Attributes.decode r.payload).isOk

namespace CatalogEntry

def of? (session : Session) (r : Record) : Option CatalogEntry :=
  if r.tag.isAttributes then (Attributes.decode r.payload).toOption.map (.file session r.fileIndex)
  else if r.tag.isDigest then some (.digest session r.fileIndex r.tag.name r.payload)
  else none

def all (session : Session) (rs : List Record) : List CatalogEntry := rs.filterMap (of? session)

theorem all_concat (session : Session) (rs : List Record) (r : Record) :
    all session (rs ++ [r]) = all session rs ++ (of? session r).toList := by
  rw [all, List.filterMap_append, ← all]
  cases h : of? session r <;> simp [h]

/-- Only attributes that cannot be read are an error. -/
theorem ofRecord_inSession (session : Session) (r : Record) :
    (r.isUnreadable = true ∧ of? session r = none ∧ ∃ e, ofRecord (r.inSession session) = .error e) ∨
    (r.isUnreadable = false ∧ ofRecord (r.inSession session) = .ok (of? session r)) := by
  have htag : (r.inSession session).tag = r.tag := rfl
  have hpayload : (r.inSession session).payload = r.payload := rfl
  rw [ofRecord, of?, Record.isUnreadable, htag, hpayload]
  by_cases ha : r.tag.isAttributes = true
  · simp only [ha, if_true, Bool.true_and]
    rcases Attributes.decode r.payload with e | a
    · exact .inl ⟨rfl, rfl, e, rfl⟩
    · exact .inr ⟨rfl, rfl⟩
  · have hnot : r.tag.isAttributes = false := by simpa using ha
    simp only [hnot, Bool.false_eq_true, if_false, Bool.false_and]
    exact .inr ⟨trivial, by split <;> rfl⟩

end CatalogEntry

namespace Migration
variable {κ γ : Type}

/-- A migration that spools does not ask the catalog. -/
theorem catalogRecord_spooling [Catalog γ] {o : JobOptions} (ho : o.spoolAttributes = true)
    (session : Session) (j : State κ γ) (r : Record) :
    catalogRecord o j (r.inSession session) =
      ({ j with
        work := { j.work with spool := j.work.spool ++ (CatalogEntry.of? session r).toList }
        counts := { j.counts with
          files := j.counts.files + ((CatalogEntry.of? session r).toList.countP CatalogEntry.isFile)
          errors := j.counts.errors + if r.isUnreadable then 1 else 0 } }, .ok ()) := by
  rcases CatalogEntry.ofRecord_inSession session r with ⟨hr, hnone, e, he⟩ | ⟨hr, hsome⟩
  · simp [catalogRecord, he, hr, hnone]
  · rw [catalogRecord, hsome]
    rcases CatalogEntry.of? session r with _ | e
    · simp [hr]
    · simp only [enter, ho, if_true, hr]
      cases he : e.isFile <;> simp [he]

variable [BlockSink κ]

/-- What a migration that spools has made of the findings it was shown: it was to copy the records
`rs` among them. -/
structure Spooled (session : Session) (writer : VolumeWriter κ) (shown : List Finding)
    (rs : List Record) (j : State κ γ) : Prop where
  writer : j.work.writer = writer.proceedAll (rs.map fun r => .record (r.inSession session))
  spool : j.work.spool.toList = CatalogEntry.all session rs
  files : j.counts.files = (CatalogEntry.all session rs).countP CatalogEntry.isFile
  records : j.counts.records = rs.length
  errors : j.counts.errors = (Finding.failures shown).length + rs.countP Record.isUnreadable
  bytes : j.counts.bytes = (rs.map fun r => r.payload.length).sum

namespace Spooled
variable {o : JobOptions} {session : Session} {writer : VolumeWriter κ} {shown : List Finding}
  {rs : List Record} {j : State κ γ}

theorem damage (h : Spooled session writer shown rs j) (e : Failure) :
    Spooled session writer (shown ++ [.damage e]) rs
      { j with counts := { j.counts with errors := j.counts.errors + 1 } } := by
  have hfailures : (Finding.failures (shown ++ [.damage e])).length
      = (Finding.failures shown).length + 1 := by
    rw [Finding.failures_append, List.length_append]
    rfl
  refine ⟨h.writer, h.spool, h.files, h.records, ?_, h.bytes⟩
  have herrors := h.errors
  rw [hfailures]
  simp only
  omega

theorem passed (h : Spooled session writer shown rs j) (r : Record) :
    Spooled session writer (shown ++ [.record r]) rs j := by
  have hfailures : Finding.failures (shown ++ [.record r]) = Finding.failures shown := by
    rw [Finding.failures_append]
    exact List.append_nil _
  exact ⟨h.writer, h.spool, h.files, h.records, by rw [hfailures]; exact h.errors, h.bytes⟩

/-- One more record is copied, whether writing it succeeds or not. -/
theorem handled [Catalog γ] (ho : o.spoolAttributes = true) (h : Spooled session writer shown rs j)
    (r : Record) : Spooled session writer (shown ++ [.record r]) (rs ++ [r])
      (handle o session { j with
        counts := { j.counts with records := j.counts.records + 1 } } r).1 := by
  have hentry := catalogRecord_spooling ho session { j with
    counts := { j.counts with records := j.counts.records + 1 } } r
  rw [Record.inSession] at hentry
  simp only [handle, hentry]
  refine ⟨?_, ?_, ?_, ?_, ?_, ?_⟩
  · rw [List.map_append, VolumeWriter.proceedAll_append, ← h.writer]
    rfl
  · rw [CatalogEntry.all_concat, ← h.spool]
    exact Array.toList_appendList
  · rw [CatalogEntry.all_concat, List.countP_append, ← h.files]
  · rw [List.length_append, ← h.records]
    rfl
  · have herrors := (h.passed r).errors
    rw [List.countP_append, List.countP_singleton]
    simp only
    omega
  · rw [List.map_append, List.sum_append, ← h.bytes]
    simp

/-- Behind one more finding, of which nothing but an admitted record is copied. -/
theorem visit [Catalog γ] (ho : o.spoolAttributes = true) (proceed : Bool) (rules : Rules)
    (h : Spooled session writer shown ((Finding.records shown).filter rules.admits) j)
    (f : Finding) :
    Spooled session writer (shown ++ [f]) ((Finding.records (shown ++ [f])).filter rules.admits)
      (Job.visit proceed rules (handle o session) j f).1 := by
  have hmeet : Spooled session writer (shown ++ [f])
      ((Finding.records (shown ++ [f])).filter rules.admits)
      (Job.meet rules (handle o session) j f) := by
    rw [Finding.records_append, List.filter_append]
    cases f with
    | damage e =>
      have hnone : (Finding.records [.damage e]).filter rules.admits = [] := rfl
      rw [hnone, List.append_nil]
      exact h.damage e
    | record r =>
      have hone : Finding.records [.record r] = [r] := rfl
      rw [hone, Job.meet]
      by_cases ha : rules.admits r = true
      · rw [if_pos ha, List.filter_cons_of_pos ha, List.filter_nil]
        exact h.handled ho r
      · rw [if_neg ha, List.filter_cons_of_neg ha, List.filter_nil, List.append_nil]
        exact h.passed r
  obtain ⟨pass, hvisit⟩ := Job.fst_visit proceed rules (handle o session) j f
  rw [hvisit]
  exact ⟨hmeet.writer, hmeet.spool, hmeet.files, hmeet.records, hmeet.errors, hmeet.bytes⟩

end Spooled

/-- However a migration that spools ends, this is what it has made of the first findings of its
source, and of all of them unless something has stopped it. -/
theorem exists_spooled {σ : Type} [BlockSource σ] [Catalog γ] {o : JobOptions}
    (ho : o.spoolAttributes = true) {proceed : Bool} {rules : Rules} {session : Session}
    {m : Migration κ γ} (hm : m.spool = #[]) {reader s : VolumeReader σ} {k : State κ γ}
    {x : Except Failure JobStatus}
    (h : Job.run proceed rules (handle o session) m reader = (k, s, x)) :
    ∃ shown, shown <+: reader.readAll.1 ∧
      Spooled session m.writer shown ((Finding.records shown).filter rules.admits) k ∧
      (x = .ok .terminated → shown = reader.readAll.1) := by
  have hnew : Spooled session m.writer [] [] ({ work := m } : State κ γ) :=
    ⟨rfl, by rw [hm]; rfl, rfl, rfl, rfl, rfl⟩
  rcases Job.exists_shown (P := fun shown j _ =>
    Spooled session m.writer shown ((Finding.records shown).filter rules.admits) j)
    (fun shown j f hj _ => hj.visit ho proceed rules f) hnew h
    with ⟨-, rfl, rfl⟩ | ⟨shown, halt, hprefix, hspooled, hend⟩
  · exact ⟨[], List.nil_prefix, hnew, fun hx => by cases hx⟩
  · refine ⟨shown, hprefix, hspooled, fun hx => ?_⟩
    cases halt with
    | none => exact hend.1
    | some reason =>
      rw [hx] at hend
      cases reason <;> cases hend

end Migration
end BackupVolume
