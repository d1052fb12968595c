import BackupVolume.Proofs.Job.Course

/-! # How jobs end

A job works on one record after another, each with success. It ends when it is canceled, when its
volume has been read or cannot be read any further, or when the work on one more record fails.
-/
namespace BackupVolume

/-- A failure of reading: of a block, of a record that is broken off, or of the device. Only writing
can fail at sealing. -/
def Failure.IsOfReading (e : Failure) : Prop :=
  (e.scope = .block ∧ e ≠ .crypto .encryptionFailed) ∨ ∃ fault, e = .device fault

theorem VolumeReader.isOfReading_of_nextRecord {σ : Type} [BlockSource σ] {r s : VolumeReader σ}
    {e : Failure} (h : r.nextRecord = (s, .error e)) : e.IsOfReading := by
  fun_induction nextRecord r with
  | case1 => cases h
  | case2 r t x drained =>
    cases h
    rw [drain] at drained
    repeat' split at drained
    all_goals cases drained
    exact .inl ⟨rfl, by rintro ⟨⟩⟩
  | case3 => cases h
  | case4 r t drained u x fetched =>
    cases h
    rw [fetch] at fetched
    split at fetched
    · cases fetched
      exact .inr ⟨_, rfl⟩
    · cases fetched
    · simp only at fetched
      split at fetched
      · cases fetched
      · next hload =>
        cases fetched
        exact .inl ⟨LoadedBlock.scope_of_load hload, LoadedBlock.ne_of_load hload⟩
  | case5 r t drained u fetched ih => exact ih h

/-- Only the device keeps a reader from going on. -/
theorem VolumeReader.exists_fault {σ : Type} [BlockSource σ] {r : VolumeReader σ} {e : Failure}
    (h : r.readAll.2.2 = .unreadable e) : ∃ fault, e = .device fault := by
  obtain ⟨s, t, hnext, hscope⟩ := exists_nextRecord h
  exact (isOfReading_of_nextRecord hnext).resolve_left fun h => hscope h.1

namespace Job
variable {σ τ : Type} {proceed : Bool} {rules : Rules}
  {handle : Job τ → Record → Job τ × Except Failure Unit} {w : τ} {rs : List Record}

inductive Succeeded (handle : Job τ → Record → Job τ × Except Failure Unit) (w : τ) :
    List Record → τ → Prop
  | none : Succeeded handle w [] w
  | more {rs : List Record} {r : Record} {j k : Job τ} :
    Succeeded handle w rs j.work → handle j r = (k, .ok ()) → Succeeded handle w (rs ++ [r]) k.work

theorem Succeeded.worked {v : τ} (h : Succeeded handle w rs v) : Worked handle w rs v := by
  induction h with
  | none => exact .none
  | more _ hr ih => exact .more ih hr

inductive Ended (handle : Job τ → Record → Job τ × Except Failure Unit) (w : τ) :
    List Record → τ → Except Failure JobStatus → Prop
  | finished {rs : List Record} {v : τ} (status : JobStatus) :
    Succeeded handle w rs v → Ended handle w rs v (.ok status)
  | unread {rs : List Record} {v : τ} {e : Failure} :
    Succeeded handle w rs v → e.IsOfReading → Ended handle w rs v (.error e)
  | failed {rs : List Record} {r : Record} {j k : Job τ} {e : Failure} :
    Succeeded handle w rs j.work → handle j r = (k, .error e) →
      Ended handle w (rs ++ [r]) k.work (.error e)

theorem Ended.worked {v : τ} {x : Except Failure JobStatus} (h : Ended handle w rs v x) :
    Worked handle w rs v := by
  cases h with
  | finished _ hs => exact hs.worked
  | unread hs => exact hs.worked
  | failed hs hr => exact .more hs.worked hr

structure Counted (handle : Job τ → Record → Job τ × Except Failure Unit) (w : τ)
    (rs : List Record) (j : Job τ) : Prop where
  succeeded : Succeeded handle w rs j.work
  records : j.counts.records = rs.length

inductive Stands (handle : Job τ → Record → Job τ × Except Failure Unit) (w : τ)
    (rs : List Record) (j : Job τ) : Option Halt → Prop
  | goesOn : Counted handle w rs j → Stands handle w rs j none
  | canceled : Counted handle w rs j → Stands handle w rs j (some .canceled)
  | failed {e : Failure} : Ended handle w rs j.work (.error e) → j.counts.records = rs.length →
    Stands handle w rs j (some (.failed e))

theorem Stands.counted {j : Job τ} (h : Stands handle w rs j none) : Counted handle w rs j := by
  cases h with
  | goesOn hc => exact hc

theorem Stands.ended {j : Job τ} {reason : Halt} (h : Stands handle w rs j (some reason)) :
    Ended handle w rs j.work (statusOf (.stopped reason)) ∧ j.counts.records = rs.length := by
  cases h with
  | canceled hc => exact ⟨.finished .canceled hc.succeeded, hc.records⟩
  | failed he hcount => exact ⟨he, hcount⟩

theorem Counted.next {j : Job τ} (h : Counted handle w rs j) (asked : Option Record) :
    Stands handle w rs (j.next rules asked).1 (j.next rules asked).2 := by
  rw [Job.next]
  split
  · exact .canceled ⟨h.succeeded, h.records⟩
  · exact .goesOn ⟨h.succeeded, h.records⟩

/-- Only a record that is admitted is worked on and counted. -/
theorem Counted.visit (proceed : Bool) (rules : Rules)
    (hcount : ∀ j r, (handle j r).1.counts.records = j.counts.records) {j : Job τ}
    (h : Counted handle w rs j) {f : Finding}
    (hf : ∀ e, f = .damage e → e.IsOfReading) :
    Stands handle w (rs ++ (Finding.records [f]).filter rules.admits)
      (Job.visit proceed rules handle j f).1 (Job.visit proceed rules handle j f).2 := by
  cases f with
  | damage e =>
    have hnone : (Finding.records [.damage e]).filter rules.admits = [] := rfl
    rw [hnone, List.append_nil, Job.visit]
    split
    · apply Counted.next
      exact ⟨h.succeeded, h.records⟩
    · exact .failed (.unread h.succeeded (hf e rfl)) h.records
  | record r =>
    have hone : Finding.records [.record r] = [r] := rfl
    rw [hone]
    by_cases ha : rules.admits r = true
    · have hkept := hcount { j with
        counts := { j.counts with records := j.counts.records + 1 } } r
      rw [List.filter_cons_of_pos ha, List.filter_nil, visit_of_admits ha]
      rcases hr : handle { j with
        counts := { j.counts with records := j.counts.records + 1 } } r with ⟨k, e | ⟨⟨⟩⟩⟩
      all_goals
        rw [hr] at hkept
        have hrecords : k.counts.records = (rs ++ [r]).length := by
          rw [hkept, List.length_append, ← h.records]
          rfl
      · exact .failed (.failed (j := { j with
          counts := { j.counts with records := j.counts.records + 1 } }) h.succeeded hr) hrecords
      · exact Counted.next ⟨.more (j := { j with
          counts := { j.counts with records := j.counts.records + 1 } }) h.succeeded hr, hrecords⟩ _
    · rw [List.filter_cons_of_neg ha, List.filter_nil, List.append_nil,
        visit_of_not_admits proceed handle ha]
      exact h.next r.asked

/-- However a job ends, it has worked on the first of the records that it admits, and has counted
them. -/
theorem exists_ended [BlockSource σ]
    (hcount : ∀ j r, (handle j r).1.counts.records = j.counts.records) {reader s : VolumeReader σ}
    {k : Job τ} {x : Except Failure JobStatus} (h : run proceed rules handle w reader = (k, s, x)) :
    ∃ rs, rs <+: (Finding.records reader.readAll.1).filter rules.admits ∧
      Ended handle w rs k.work x ∧ k.counts.records = rs.length := by
  rcases exists_shown (P := fun shown j halt =>
    Stands handle w ((Finding.records shown).filter rules.admits) j halt)
    (fun shown j f hj hf => by
      rw [Finding.records_append, List.filter_append]
      refine hj.counted.visit proceed rules hcount ?_
      rintro e rfl
      obtain ⟨s, u, hnext, -⟩ := VolumeReader.exists_of_mem_readAll hf
      exact VolumeReader.isOfReading_of_nextRecord hnext) (.goesOn ⟨.none, rfl⟩) h
    with ⟨-, rfl, rfl⟩ | ⟨shown, halt, hprefix, hstands, hend⟩
  · exact ⟨[], List.nil_prefix, .finished .canceled .none, rfl⟩
  · refine ⟨_, (Finding.records_prefix hprefix).filter _, ?_⟩
    cases halt with
    | some reason =>
      obtain rfl := hend
      exact hstands.ended
    | none =>
      obtain ⟨-, -, rfl⟩ := hend
      have hcounted := hstands.counted
      rcases hending : reader.readAll.2.2 with _ | reason | e
      · exact ⟨.finished .terminated hcounted.succeeded, hcounted.records⟩
      · exact reason.elim
      · exact ⟨.unread hcounted.succeeded (.inr (VolumeReader.exists_fault hending)),
          hcounted.records⟩

end Job

def summaryOf : Except Aborted Summary → Summary
  | .ok summary => summary
  | .error a => a.summary

theorem Job.records_summaryOf_result {τ : Type} (j : Job τ) (stats : ReaderStats)
    (x : Except Failure JobStatus) :
    (summaryOf (j.result stats x)).records = j.counts.records := by
  cases x <;> rfl

theorem Job.status_summaryOf_result {τ : Type} (j : Job τ) (stats : ReaderStats)
    (x : Except Failure JobStatus) :
    (summaryOf (j.result stats x)).status = .terminated ↔ x = .ok .terminated := by
  cases x with
  | ok status => simp [Job.result, summaryOf, Job.summary]
  | error e => simp [Job.result, summaryOf, Job.summary]

/-- Closing does not turn a failure into a success. -/
theorem firstFailure_error (e : Failure) (closing : List (Except Failure Unit)) :
    firstFailure (.error e) closing = .error e := by
  induction closing with
  | nil => rfl
  | cons c closing ih => exact ih

/-- Last steps that are taken with success change nothing. -/
theorem firstFailure_of_ok {closing : List (Except Failure Unit)} (h : ∀ c ∈ closing, c = .ok ())
    (x : Except Failure JobStatus) : firstFailure x closing = x := by
  induction closing generalizing x with
  | nil => rfl
  | cons c closing ih =>
    have hfirst : firstFailure x (c :: closing) = firstFailure x closing := by
      rw [h c (by simp)]
      cases x <;> rfl
    rw [hfirst, ih fun d hd => h d (by simp [hd])]

theorem ok_of_firstFailure {x : Except Failure JobStatus} {closing : List (Except Failure Unit)}
    {status : JobStatus} (h : firstFailure x closing = .ok status) : x = .ok status := by
  induction closing generalizing x with
  | nil => exact h
  | cons c closing ih =>
    have hfirst := ih h
    rcases x with e | s
    · cases hfirst
    · rcases c with e | u
      · cases hfirst
      · exact hfirst

end BackupVolume
