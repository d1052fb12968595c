import BackupVolume.Proofs.Job.Passage

/-! # The course of a job

However a job ends, it has gone through the first findings of its volume, and its work is what it
made of the records among them that it admits, one after another. A job that keeps more than
another one takes the same course.
-/
namespace BackupVolume

namespace Job
variable {σ τ υ : Type} (proceed : Bool) (rules : Rules)
  {handle : Job τ → Record → Job τ × Except Failure Unit}

/-- The work `w` has become `v` when these records had been worked on. -/
inductive Worked (handle : Job τ → Record → Job τ × Except Failure Unit) (w : τ) :
    List Record → τ → Prop
  | none : Worked handle w [] w
  | more {rs : List Record} {r : Record} {j k : Job τ} {x : Except Failure Unit} :
    Worked handle w rs j.work → handle j r = (k, x) → Worked handle w (rs ++ [r]) k.work

def meet (rules : Rules) (handle : Job τ → Record → Job τ × Except Failure Unit) (j : Job τ) :
    Finding → Job τ
  | .damage _ => { j with counts := { j.counts with errors := j.counts.errors + 1 } }
  | .record r =>
    if rules.admits r then
      (handle { j with counts := { j.counts with records := j.counts.records + 1 } } r).1
    else j

theorem fst_visit (handle : Job τ → Record → Job τ × Except Failure Unit) (j : Job τ)
    (f : Finding) :
    ∃ pass, (visit proceed rules handle j f).1 = { meet rules handle j f with pass } := by
  cases f with
  | damage e =>
    rw [visit]
    split
    · exact ⟨_, rfl⟩
    · exact ⟨j.pass, rfl⟩
  | record r =>
    by_cases ha : rules.admits r = true
    · rw [visit_of_admits ha, meet, if_pos ha]
      rcases handle { j with counts := { j.counts with records := j.counts.records + 1 } } r with
        ⟨k, e | ⟨⟨⟩⟩⟩
      · exact ⟨k.pass, rfl⟩
      · exact ⟨_, rfl⟩
    · rw [visit_of_not_admits proceed handle ha, meet, if_neg ha]
      exact ⟨_, rfl⟩

/-- Only a record that is admitted is worked on. -/
theorem Worked.visit {w : τ} {rs : List Record} {j : Job τ} (h : Worked handle w rs j.work)
    (f : Finding) : Worked handle w (rs ++ (Finding.records [f]).filter rules.admits)
      (visit proceed rules handle j f).1.work := by
  have hwork : (Job.visit proceed rules handle j f).1.work = (meet rules handle j f).work := by
    obtain ⟨pass, hvisit⟩ := fst_visit proceed rules handle j f
    rw [hvisit]
  rw [hwork]
  cases f with
  | damage e =>
    have hnone : (Finding.records [.damage e]).filter rules.admits = [] := rfl
    rw [hnone, List.append_nil]
    exact h
  | record r =>
    have hone : Finding.records [.record r] = [r] := rfl
    rw [hone, meet]
    by_cases ha : rules.admits r = true
    · rw [if_pos ha, List.filter_cons_of_pos ha, List.filter_nil]
      rcases hk : handle { j with
        counts := { j.counts with records := j.counts.records + 1 } } r with ⟨k, x⟩
      exact .more (j := { j with counts := { j.counts with records := j.counts.records + 1 } }) h hk
    · rw [if_neg ha, List.filter_cons_of_neg ha, List.filter_nil, List.append_nil]
      exact h

/-- What a job has made of a volume, how it has ended, and that it has seen all findings unless
something has stopped it. -/
theorem exists_shown {proceed : Bool} {rules : Rules} [BlockSource σ] {work : τ}
    {reader s : VolumeReader σ} {k : Job τ} {x : Except Failure JobStatus}
    {P : List Finding → Job τ → Option Halt → Prop}
    (hvisit : ∀ shown j f, P shown j none → f ∈ reader.readAll.1 →
      P (shown ++ [f]) (visit proceed rules handle j f).1 (visit proceed rules handle j f).2)
    (hnew : P [] { work } none) (h : run proceed rules handle work reader = (k, s, x)) :
    rules.cancellation 0 none = true ∧ k = { work } ∧ x = .ok .canceled ∨
    ∃ shown halt, shown <+: reader.readAll.1 ∧ P shown k halt ∧
      match halt with
      | some reason => x = statusOf (.stopped reason)
      | none => shown = reader.readAll.1 ∧ s = reader.readAll.2.1 ∧
        x = statusOf reader.readAll.2.2.forEveryone := by
  rcases hcancel : rules.cancellation 0 none with _ | _
  · obtain ⟨t, y, hrun, hend⟩ :=
      run_showAll proceed handle hcancel work reader
    obtain ⟨shown, hprefix, hinv, hwhole⟩ := showAll_induction hvisit hnew
    rw [hrun] at h
    cases h
    refine .inr ⟨shown, _, hprefix, hinv, ?_⟩
    rcases hhalt : (showAll (visit proceed rules handle) { work } reader.readAll.1).2 with _ | reason
    all_goals rw [hhalt] at hend hwhole
    · exact ⟨hwhole rfl, hend⟩
    · exact hend
  · rw [run_canceled hcancel] at h
    cases h
    exact .inl ⟨rfl, rfl, rfl⟩

/-- However a job ends, it has worked on the first of the records that it admits. -/
theorem exists_worked {proceed : Bool} {rules : Rules} [BlockSource σ] {work : τ}
    {reader s : VolumeReader σ} {k : Job τ} {x : Except Failure JobStatus}
    (h : run proceed rules handle work reader = (k, s, x)) :
    ∃ rs, rs <+: (Finding.records reader.readAll.1).filter rules.admits ∧
      Worked handle work rs k.work := by
  rcases exists_shown (P := fun shown j _ =>
    Worked handle work ((Finding.records shown).filter rules.admits) j.work)
    (fun shown j f hj _ => by
      rw [Finding.records_append, List.filter_append]
      exact hj.visit proceed rules f) .none h with ⟨-, rfl, -⟩ | ⟨shown, halt, hprefix, hworked, -⟩
  · exact ⟨[], List.nil_prefix, .none⟩
  · exact ⟨_, (Finding.records_prefix hprefix).filter _, hworked⟩

section Map
variable {handle' : Job υ → Record → Job υ × Except Failure Unit} (f : τ → υ)

def map (j : Job τ) : Job υ := { j with work := f j.work }

theorem visit_map (hh : ∀ j r, handle' (j.map f) r = ((handle j r).1.map f, (handle j r).2))
    (j : Job τ) (x : Finding) : visit proceed rules handle' (j.map f) x
      = ((visit proceed rules handle j x).1.map f, (visit proceed rules handle j x).2) := by
  cases x with
  | damage e =>
    simp only [visit]
    split <;> rfl
  | record r =>
    have hr := hh { j with counts := { j.counts with records := j.counts.records + 1 } } r
    simp only [visit]
    split
    · rfl
    · split
      · rfl
      · rw [map] at hr ⊢
        simp only [hr]
        rcases handle { j with counts := { j.counts with records := j.counts.records + 1 } } r with
          ⟨k, e | ⟨⟨⟩⟩⟩
        · rfl
        · rfl

/-- Jobs that work alike on what they have in common take the same course. -/
theorem run_map [BlockSource σ]
    (hh : ∀ j r, handle' (j.map f) r = ((handle j r).1.map f, (handle j r).2)) (work : τ)
    (reader : VolumeReader σ) :
    run proceed rules handle' (f work) reader
      = ((run proceed rules handle work reader).1.map f,
        (run proceed rules handle work reader).2) := by
  have hmap := VolumeReader.traverse_map (map f) (visit_map proceed rules f hh)
    { work } reader
  rw [run, run]
  split
  · rfl
  · exact congrArg (fun x => (x.1, x.2.1, statusOf x.2.2)) hmap

end Map
end Job
end BackupVolume
