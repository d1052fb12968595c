import BackupVolume.Proofs.Job.Ending

/-! # What damage does to a job

A job that is not to proceed takes the same course as one that is, up to the first damage, which
ends it. What ends a job at all is neither a single record nor, if it is to proceed, a single block.
-/
namespace BackupVolume

def Failure.MayEnd (proceed : Bool) (e : Failure) : Prop :=
  e.scope ≠ .record ∧ (proceed = true → e.scope = .job)

theorem Failure.mayEnd_of_job {e : Failure} (h : e.scope = .job) (proceed : Bool) :
    e.MayEnd proceed := by
  refine ⟨?_, fun _ => h⟩
  rw [h]
  nofun

theorem Failure.mayEnd_of_block {e : Failure} (h : e.scope = .block) : e.MayEnd false := by
  refine ⟨?_, fun hp => absurd hp Bool.false_ne_true⟩
  rw [h]
  nofun

/-- What fails when the last steps are taken has failed before or in one of them. -/
theorem error_of_firstFailure {x : Except Failure JobStatus} {closing : List (Except Failure Unit)}
    {e : Failure} (h : firstFailure x closing = .error e) : x = .error e ∨ .error e ∈ closing := by
  induction closing generalizing x with
  | nil => exact .inl h
  | cons c closing ih =>
    rcases ih h with hfirst | hrest
    · rcases x with f | status
      · exact .inl hfirst
      · rcases c with f | u
        · cases hfirst
          exact .inr (by simp)
        · cases hfirst
    · exact .inr (by simp [hrest])

theorem exists_of_mapError {ε α : Type} {f : ε → Failure} {x : Except ε α} {e : Failure}
    (h : .error e = x.mapError f) : ∃ fault, e = f fault := by
  cases x with
  | ok value => cases h
  | error fault => exact ⟨fault, Except.error.inj h⟩

/-- A job that was aborted carries what has failed. -/
theorem Job.cause_of_result {τ : Type} {j : Job τ} {stats : ReaderStats}
    {x : Except Failure JobStatus} {a : Aborted} (h : j.result stats x = .error a) :
    x = .error a.cause := by
  cases x with
  | ok status => cases h
  | error e =>
    cases h
    rfl

namespace Job
variable {σ τ : Type} {rules : Rules} {handle : Job τ → Record → Job τ × Except Failure Unit}

/-- A relation between the work before and after that every record keeps is kept by a whole job. -/
theorem kept_by_showAll {R : τ → τ → Prop} (hrefl : ∀ w, R w w)
    (htrans : ∀ {u v w}, R u v → R v w → R u w)
    (hhandle : ∀ j r, R j.work (handle j r).1.work) (proceed : Bool) (j : Job τ)
    (fs : List Finding) : R j.work (showAll (visit proceed rules handle) j fs).1.work := by
  have hvisit (k : Job τ) (f : Finding) : R k.work (visit proceed rules handle k f).1.work := by
    obtain ⟨pass, heq⟩ := fst_visit proceed rules handle k f
    rw [heq]
    cases f with
    | damage e => exact hrefl _
    | record r =>
      rw [meet]
      split
      · exact hhandle { k with counts := { k.counts with records := k.counts.records + 1 } } r
      · exact hrefl _
  have hall : ∃ shown, shown <+: fs ∧
      R j.work (showAll (visit proceed rules handle) j fs).1.work ∧ _ :=
    showAll_induction (P := fun _ k _ => R j.work k.work)
      (fun _ k f hk _ => htrans hk (hvisit k f)) (hrefl j.work)
  obtain ⟨-, -, hkept, -⟩ := hall
  exact hkept

/-- A job that is not to proceed comes less far. -/
theorem showAll_strict {R : τ → τ → Prop} (hrefl : ∀ w, R w w)
    (htrans : ∀ {u v w}, R u v → R v w → R u w)
    (hhandle : ∀ j r, R j.work (handle j r).1.work) (j : Job τ) (fs : List Finding) :
    R (showAll (visit false rules handle) j fs).1.work
      (showAll (visit true rules handle) j fs).1.work := by
  induction fs generalizing j with
  | nil => exact hrefl _
  | cons f fs ih =>
    cases f with
    | damage e =>
      -- Here the two jobs part: one of them does nothing any more.
      have hstops : (showAll (visit false rules handle) j (.damage e :: fs)).1.work = j.work := rfl
      rw [hstops]
      exact kept_by_showAll hrefl htrans hhandle true j (.damage e :: fs)
    | record r =>
      have hsame : visit false rules handle j (.record r) = visit true rules handle j (.record r) :=
        rfl
      rw [showAll, showAll, hsame]
      rcases visit true rules handle j (.record r) with ⟨k, _ | reason⟩
      · exact ih k
      · exact hrefl _

theorem next_ne_failed (rules : Rules) (j : Job τ) (asked : Option Record) (x : Failure) :
    (j.next rules asked).2 ≠ some (.failed x) := by
  rw [next]
  split
  · simp
  · simp

/-- Nothing stops a job but the failures of work on a record, and damage where it is not to proceed.
-/
theorem mayEnd_of_visit {proceed : Bool} {P : Failure → Prop}
    (hhandle : ∀ j r k e, handle j r = (k, .error e) → P e) {j : Job τ} {f : Finding}
    (hf : ∀ e, f = .damage e → e.scope = .block) {x : Failure}
    (hx : (visit proceed rules handle j f).2 = some (.failed x)) : x.MayEnd proceed ∨ P x := by
  cases f with
  | damage y =>
    rw [visit] at hx
    cases proceed with
    | true => exact absurd hx (next_ne_failed rules _ none x)
    | false =>
      cases hx
      exact .inl (Failure.mayEnd_of_block (hf x rfl))
  | record r =>
    by_cases ha : rules.admits r = true
    · rw [visit_of_admits ha] at hx
      rcases hk : handle { j with
        counts := { j.counts with records := j.counts.records + 1 } } r with ⟨l, y | ⟨⟨⟩⟩⟩
      · rw [hk] at hx
        cases hx
        exact .inr (hhandle _ _ _ _ hk)
      · rw [hk] at hx
        exact absurd hx (next_ne_failed rules l (some r) x)
    · rw [visit_of_not_admits proceed handle ha] at hx
      exact absurd hx (next_ne_failed rules j r.asked x)

section Run
variable [BlockSource σ] {work : τ} {reader : VolumeReader σ}

theorem run_strict {R : τ → τ → Prop} (hrefl : ∀ w, R w w)
    (htrans : ∀ {u v w}, R u v → R v w → R u w)
    (hhandle : ∀ j r, R j.work (handle j r).1.work) :
    R (run false rules handle work reader).1.work (run true rules handle work reader).1.work := by
  rcases hcancel : rules.cancellation 0 none with _ | _
  · obtain ⟨_, _, hstrict, -⟩ := run_showAll false handle hcancel work reader
    obtain ⟨_, _, hlenient, -⟩ := run_showAll true handle hcancel work reader
    rw [hstrict, hlenient]
    exact showAll_strict hrefl htrans hhandle { work } reader.readAll.1
  · rw [run_canceled hcancel, run_canceled hcancel]
    exact hrefl work

/-- Where there is no damage it does not matter whether a job is to proceed. -/
theorem run_undamaged (h : Finding.failures reader.readAll.1 = []) :
    run false rules handle work reader = run true rules handle work reader := by
  have hsame (f : Finding) (hf : f ∈ reader.readAll.1) (j : Job τ) :
      visit false rules handle j f = visit true rules handle j f := by
    cases f with
    | record r => rfl
    | damage e =>
      have hmem : e ∈ Finding.failures reader.readAll.1 := List.mem_filterMap.mpr ⟨_, hf, rfl⟩
      rw [h] at hmem
      cases hmem
  rw [run, run, VolumeReader.traverse_agree { work } hsame]

/-- A job that is to proceed, and on which no record fails, works on all records that it admits. -/
theorem run_lenient (hc : rules.cancellation = .never) (Inv : τ → Nat → List Record → Prop)
    (hkeep : ∀ w n rs, Inv w n rs → Inv w (n + 1) rs)
    (hstep : ∀ (j : Job τ) (r : Record) (rs : List Record), Inv j.work j.counts.errors (r :: rs) →
      ∃ k, handle j r = (k, .ok ()) ∧ Inv k.work k.counts.errors rs ∧
        k.counts.records = j.counts.records)
    (hi : Inv work 0 ((Finding.records reader.readAll.1).filter rules.admits)) :
    ∃ k s x, run true rules handle work reader = (k, s, x) ∧ Inv k.work k.counts.errors [] := by
  obtain ⟨k, hk, hinv, -⟩ : ∃ k, showAll (visit true rules handle) { work } reader.readAll.1
      = (k, none) ∧ Inv k.work k.counts.errors [] ∧ _ :=
    showAll_visit Inv hc (.inr ⟨rfl, hkeep⟩) hstep hi
  obtain ⟨s, x, hrun, -⟩ := run_showAll true handle (by rw [hc]; rfl) work reader
  rw [hk] at hrun
  exact ⟨k, s, x, hrun, hinv⟩

/-- A job that is not to proceed ends at the first damage, if it comes so far. -/
theorem run_of_damage (hc : rules.cancellation 0 none = false) {before after : List Finding}
    {e : Failure} (hr : reader.readAll.1 = before ++ .damage e :: after) {j : Job τ}
    (hj : showAll (visit false rules handle) { work } before = (j, none)) :
    ∃ s, run false rules handle work reader
      = ({ j with counts := { j.counts with errors := j.counts.errors + 1 } }, s, .error e) := by
  have hstops : showAll (visit false rules handle) { work } reader.readAll.1
      = ({ j with counts := { j.counts with errors := j.counts.errors + 1 } },
        some (.failed e)) := by
    rw [hr, showAll_append_of_none hj]
    rfl
  obtain ⟨s, x, hrun, hend⟩ := run_showAll false handle hc work reader
  rw [hstops] at hrun hend
  obtain rfl := hend
  exact ⟨s, hrun⟩

/-- Where no record fails, a job that is not to proceed has worked on the records before the first
damage. -/
theorem run_damaged (hc : rules.cancellation = .never) (Inv : τ → Nat → List Record → Prop)
    {before after : List Finding} {e : Failure}
    (hr : reader.readAll.1 = before ++ .damage e :: after) (hb : Finding.failures before = [])
    (hstep : ∀ (j : Job τ) (r : Record) (rs : List Record), Inv j.work j.counts.errors (r :: rs) →
      ∃ k, handle j r = (k, .ok ()) ∧ Inv k.work k.counts.errors rs ∧
        k.counts.records = j.counts.records)
    (hi : Inv work 0 ((Finding.records before).filter rules.admits)) :
    ∃ k s n, run false rules handle work reader = (k, s, .error e) ∧ Inv k.work n [] ∧
      k.counts.errors = n + 1 ∧
      k.counts.records = ((Finding.records before).filter rules.admits).length := by
  obtain ⟨j, hj, hinv, hcount⟩ : ∃ j, showAll (visit false rules handle) { work } before
      = (j, none) ∧ Inv j.work j.counts.errors [] ∧
      j.counts.records = 0 + ((Finding.records before).filter rules.admits).length :=
    showAll_visit Inv hc (.inl hb) hstep hi
  rw [Nat.zero_add] at hcount
  obtain ⟨s, hrun⟩ := run_of_damage (by rw [hc]; rfl) hr hj
  exact ⟨_, s, j.counts.errors, hrun, hinv, rfl, hcount⟩

theorem mayEnd_of_run {proceed : Bool} {P : Failure → Prop}
    (hhandle : ∀ j r k e, handle j r = (k, .error e) → P e) {k : Job τ} {s : VolumeReader σ}
    {e : Failure} (h : run proceed rules handle work reader = (k, s, .error e)) :
    e.MayEnd proceed ∨ P e := by
  rcases exists_shown (P := fun _ _ halt => ∀ x, halt = some (.failed x) → x.MayEnd proceed ∨ P x)
    (fun _ _ f _ hf x hx => mayEnd_of_visit hhandle
      (fun _ he => VolumeReader.scope_of_mem_readAll (he ▸ hf)) hx) nofun h
    with ⟨-, -, hcanceled⟩ | ⟨shown, halt, -, hhalt, hend⟩
  · cases hcanceled
  · cases halt with
    | some reason =>
      cases reason with
      | canceled => cases hend
      | failed x =>
        cases hend
        exact hhalt e rfl
    | none =>
      obtain ⟨-, -, hend⟩ := hend
      rcases hending : reader.readAll.2.2 with _ | reason | x
      · rw [hending] at hend
        cases hend
      · exact reason.elim
      · obtain ⟨fault, rfl⟩ := VolumeReader.exists_fault hending
        rw [hending] at hend
        cases hend
        exact .inl (Failure.mayEnd_of_job rfl proceed)

end Run
end Job
end BackupVolume
