import BackupVolume.Job.Run
import BackupVolume.Proofs.Volume.Findings

/-! # Jobs that reach the end

A job that nobody cancels and whose work never fails goes through the whole volume. What holds of
its work while records are still to come, and is kept by every record, holds at the end.
-/
namespace BackupVolume

def Rules.admits (rules : Rules) (r : Record) : Bool := !r.isLabel && rules.selector r

def Record.asked (r : Record) : Option Record := if r.isLabel then none else some r

namespace Job
variable {σ τ : Type} {proceed : Bool} {rules : Rules}
  {handle : Job τ → Record → Job τ × Except Failure Unit}

theorem next_never (hc : rules.cancellation = .never) (j : Job τ) (asked : Option Record) :
    j.next rules asked = ({ j with pass := j.pass + 1 }, none) := by
  rw [next, hc]
  rfl

/-- A record that is not admitted is passed over. -/
theorem visit_of_not_admits (proceed : Bool)
    (handle : Job τ → Record → Job τ × Except Failure Unit) {r : Record}
    (ha : ¬rules.admits r = true) (j : Job τ) :
    visit proceed rules handle j (.record r) = j.next rules r.asked := by
  rw [visit, Record.asked]
  by_cases hl : r.isLabel = true
  · rw [if_pos hl, if_pos hl]
  · have hs : rules.selector r = false := by
      simpa [Rules.admits, hl] using ha
    rw [if_neg hl, if_pos (by simp [hs]), if_neg hl]

theorem visit_of_admits {r : Record} (ha : rules.admits r = true) (j : Job τ) :
    visit proceed rules handle j (.record r) =
      match handle { j with counts := { j.counts with records := j.counts.records + 1 } } r with
      | (k, .ok ()) => k.next rules (some r)
      | (k, .error e) => (k, some (.failed e)) := by
  have hadmits : r.isLabel = false ∧ rules.selector r = true := by
    simpa [Rules.admits] using ha
  exact (if_neg (by simp [hadmits.1])).trans (if_neg (by simp [hadmits.2]))

theorem visit_passed (hc : rules.cancellation = .never) {r : Record}
    (ha : ¬rules.admits r = true) (j : Job τ) :
    visit proceed rules handle j (.record r) = ({ j with pass := j.pass + 1 }, none) := by
  rw [visit_of_not_admits proceed handle ha, next_never hc]

theorem visit_admitted (hc : rules.cancellation = .never) {r : Record}
    (ha : rules.admits r = true) {j k : Job τ}
    (hk : handle { j with counts := { j.counts with records := j.counts.records + 1 } } r
      = (k, .ok ())) :
    visit proceed rules handle j (.record r) = ({ k with pass := k.pass + 1 }, none) := by
  rw [visit_of_admits ha]
  simp only [hk, next_never hc]

/-- The work passes over all findings. `Inv w n rs` is what holds of the work `w` when `n` errors have
been counted and the records `rs` are still to be worked on. -/
theorem showAll_visit (Inv : τ → Nat → List Record → Prop) (hc : rules.cancellation = .never)
    {fs : List Finding} (hd : Finding.failures fs = [] ∨
      proceed = true ∧ ∀ w n rs, Inv w n rs → Inv w (n + 1) rs)
    (hstep : ∀ (j : Job τ) (r : Record) (rs : List Record), Inv j.work j.counts.errors (r :: rs) →
      ∃ k, handle j r = (k, .ok ()) ∧ Inv k.work k.counts.errors rs ∧
        k.counts.records = j.counts.records)
    {j : Job τ} (hi : Inv j.work j.counts.errors ((Finding.records fs).filter rules.admits)) :
    ∃ k, showAll (visit proceed rules handle) j fs = (k, none) ∧ Inv k.work k.counts.errors [] ∧
      k.counts.records
        = j.counts.records + ((Finding.records fs).filter rules.admits).length := by
  induction fs generalizing j with
  | nil => exact ⟨j, rfl, hi, rfl⟩
  | cons f fs ih =>
    cases f with
    | damage e =>
      obtain ⟨hp, hkeep⟩ := hd.resolve_left (by simp [Finding.failures])
      obtain ⟨k, hk, hinv, hcount⟩ := ih (.inr ⟨hp, hkeep⟩)
        (j := { j with
          counts := { j.counts with errors := j.counts.errors + 1 }, pass := j.pass + 1 })
        (hkeep _ _ _ hi)
      refine ⟨k, ?_, hinv, hcount⟩
      rw [showAll, visit, if_pos hp, next_never hc]
      exact hk
    | record r =>
      have hd : Finding.failures fs = [] ∨
          proceed = true ∧ ∀ w n rs, Inv w n rs → Inv w (n + 1) rs := hd
      have hcons : Finding.records (.record r :: fs) = r :: Finding.records fs := rfl
      rw [hcons] at hi ⊢
      by_cases ha : rules.admits r = true
      · rw [List.filter_cons_of_pos ha] at hi ⊢
        obtain ⟨k, hk, hinv, hcount⟩ := hstep
          { j with counts := { j.counts with records := j.counts.records + 1 } } r _ hi
        obtain ⟨l, hl, hinv, hcounts⟩ := ih hd (j := { k with pass := k.pass + 1 }) hinv
        refine ⟨l, ?_, hinv, ?_⟩
        · rw [showAll, visit_admitted hc ha hk]
          exact hl
        · rw [hcounts, List.length_cons]
          simp only [hcount]
          omega
      · rw [List.filter_cons_of_neg ha] at hi ⊢
        obtain ⟨k, hk, hinv, hcount⟩ := ih hd (j := { j with pass := j.pass + 1 }) hi
        refine ⟨k, ?_, hinv, hcount⟩
        rw [showAll, visit_passed hc ha]
        exact hk

/-- A job that is not canceled at once is shown the findings of its volume, and ends where something
stops it, or as reading ends. -/
theorem run_showAll [BlockSource σ] (proceed : Bool)
    (handle : Job τ → Record → Job τ × Except Failure Unit)
    (hc : rules.cancellation 0 none = false) (work : τ) (reader : VolumeReader σ) :
    ∃ s x, run proceed rules handle work reader
        = ((showAll (visit proceed rules handle) { work } reader.readAll.1).1, s, x) ∧
      match (showAll (visit proceed rules handle) { work } reader.readAll.1).2 with
      | some reason => x = statusOf (.stopped reason)
      | none => s = reader.readAll.2.1 ∧ x = statusOf reader.readAll.2.2.forEveryone := by
  obtain ⟨s, ending, htraverse, hend⟩ :=
    reader.traverse_showAll (visit proceed rules handle) { work }
  refine ⟨s, statusOf ending, ?_, ?_⟩
  · rw [run, if_neg (by simp [hc])]
    simp only [htraverse]
  · rcases hhalt : (showAll (visit proceed rules handle) { work } reader.readAll.1).2 with _ | reason
    all_goals rw [hhalt] at hend
    · exact ⟨hend.1, congrArg statusOf hend.2⟩
    · exact congrArg statusOf hend

theorem run_canceled [BlockSource σ] (hc : rules.cancellation 0 none = true) (work : τ)
    (reader : VolumeReader σ) :
    run proceed rules handle work reader = ({ work }, reader, .ok .canceled) := by
  rw [run, if_pos hc]

/-- A job that has come to the end has not been canceled, and has been through all findings. -/
theorem run_terminated_iff [BlockSource σ] {work : τ} {reader s : VolumeReader σ} {k : Job τ} :
    run proceed rules handle work reader = (k, s, .ok .terminated) ↔
      rules.cancellation 0 none = false ∧
        showAll (visit proceed rules handle) { work } reader.readAll.1 = (k, none) ∧
        reader.readAll.2 = (s, .endOfData) := by
  rcases hcancel : rules.cancellation 0 none with _ | _
  · obtain ⟨t, x, hrun, hend⟩ :=
      run_showAll proceed handle hcancel work reader
    rw [hrun]
    rcases hall : showAll (visit proceed rules handle) { work } reader.readAll.1 with
      ⟨l, _ | reason⟩
    all_goals rw [hall] at hend
    · obtain ⟨rfl, rfl⟩ := hend
      rcases reader.readAll.2 with ⟨t, _ | reason | e⟩
      · simp [Ending.forEveryone, statusOf]
      · exact reason.elim
      · simp [Ending.forEveryone, statusOf]
    · obtain rfl := hend
      cases reason <;> simp [statusOf]
  · rw [run_canceled hcancel]
    simp

theorem run_terminated [BlockSource σ] (Inv : τ → Nat → List Record → Prop)
    (hc : rules.cancellation = .never) {reader s : VolumeReader σ} {fs : List Finding}
    (hr : reader.readAll = (fs, s, .endOfData))
    (hd : Finding.failures fs = [] ∨ proceed = true ∧ ∀ w n rs, Inv w n rs → Inv w (n + 1) rs)
    (hstep : ∀ (j : Job τ) (r : Record) (rs : List Record), Inv j.work j.counts.errors (r :: rs) →
      ∃ k, handle j r = (k, .ok ()) ∧ Inv k.work k.counts.errors rs ∧
        k.counts.records = j.counts.records)
    {work : τ} (hi : Inv work 0 ((Finding.records fs).filter rules.admits)) :
    ∃ k, run proceed rules handle work reader = (k, s, .ok .terminated) ∧
      Inv k.work k.counts.errors [] ∧
      k.counts.records = ((Finding.records fs).filter rules.admits).length := by
  obtain ⟨k, hk, hinv, hcount⟩ := showAll_visit Inv hc hd hstep (j := { work }) hi
  refine ⟨k, run_terminated_iff.mpr ⟨?_, ?_, ?_⟩, hinv, by rw [hcount, Nat.zero_add]⟩
  · rw [hc]
    rfl
  · rw [hr, hk]
  · rw [hr]

end Job
end BackupVolume
