import BackupVolume.Proofs.Job.Ending
import BackupVolume.Proofs.Volume.Chaining

/-! # Reading comes to an end

Every call that gets on uses up something of the volume. Behind finitely many of them there is one
that does not: the data have come to their end, or the device has failed. Whoever goes through a
volume makes some of these calls, and is shown their failures.
-/
namespace BackupVolume

namespace VolumeReader
variable {σ τ ε : Type} [BlockSource σ]

def damage? : Except Failure (Option Record) → Option Failure
  | .error e => if e.scope = .block then some e else none
  | .ok _ => none

/-- The failures of so many calls that reach no further than a block. -/
def failures (r : VolumeReader σ) (n : Nat) : List Failure :=
  (List.range n).filterMap fun i => damage? (r.result i)

theorem failures_succ (r : VolumeReader σ) (n : Nat) :
    r.failures (n + 1) = r.failures n ++ (damage? (r.result n)).toList := by
  rw [failures, List.range_succ, List.filterMap_append, failures]
  congr 1

def Leaves (r s : VolumeReader σ) (m : Nat) : Prop :=
  s = r.after m ∧ ∀ i, i + 1 < m → GotOn (r.result i)

section Next
variable {r s u : VolumeReader σ} {x : Except Failure (Option Record)} (h : r.nextRecord = (s, x))
include h

theorem after_of_next (n : Nat) : r.after (n + 1) = s.after n := by
  rw [after, h]

theorem result_zero_of_next : r.result 0 = x := by
  rw [result, after, h]

theorem result_succ_of_next (n : Nat) : r.result (n + 1) = s.result n := by
  rw [result, after_of_next h, result]

theorem gotOn_iff_of_next (n : Nat) :
    (∀ i < n + 1, GotOn (r.result i)) ↔ GotOn x ∧ ∀ i < n, GotOn (s.result i) := by
  rw [Nat.forall_lt_succ_left, result_zero_of_next h]
  simp only [result_succ_of_next h]

theorem leaves_one : r.Leaves s 1 := by
  constructor
  · rw [after_of_next h, after]
  · intro i hi
    omega

theorem Leaves.more (hon : GotOn x) {m : Nat} (hs : s.Leaves u m) : r.Leaves u (m + 1) := by
  obtain ⟨rfl, hbefore⟩ := hs
  constructor
  · rw [after_of_next h]
  · intro i hi
    cases i with
    | zero => rwa [result_zero_of_next h]
    | succ i =>
      rw [result_succ_of_next h]
      exact hbefore i (by omega)

theorem failures_of_next (n : Nat) :
    r.failures (n + 1) = (damage? x).toList ++ s.failures n := by
  have hrest : (List.range n).filterMap ((fun i => damage? (r.result i)) ∘ Nat.succ)
      = s.failures n :=
    List.filterMap_congr fun i _ => congrArg damage? (result_succ_of_next h i)
  rw [failures, List.range_succ_eq_map, List.filterMap_cons, List.filterMap_map, hrest,
    result_zero_of_next h]
  cases damage? x <;> rfl

theorem failures_one : r.failures 1 = (damage? x).toList := by
  rw [failures_of_next h]
  exact List.append_nil _

end Next

/-- Behind some calls that get on there is one that does not, since less and less is left. -/
theorem exists_end (r : VolumeReader σ) :
    ∃ n, (∀ i < n, GotOn (r.result i)) ∧ ¬GotOn (r.result n) := by
  rcases hnext : r.nextRecord with ⟨s, x⟩
  by_cases hon : GotOn x
  · obtain ⟨n, hbefore, hend⟩ := exists_end s
    refine ⟨n + 1, (gotOn_iff_of_next hnext n).mpr ⟨hon, hbefore⟩, ?_⟩
    rwa [result_succ_of_next hnext]
  · refine ⟨0, ?_, ?_⟩
    · intro i hi
      omega
    · rwa [result_zero_of_next hnext]
termination_by r.left
decreasing_by exact left_nextRecord hnext hon

/-- A call that does not get on has found the end of the data, or the device has failed. -/
theorem of_not_gotOn {r : VolumeReader σ} {n : Nat} (h : ¬GotOn (r.result n)) :
    r.result n = .ok none ∨ ∃ fault, r.result n = .error (.device fault) := by
  rcases hx : r.result n with e | _ | x
  · have hreading : e.IsOfReading := isOfReading_of_nextRecord (s := (r.after n).nextRecord.1)
      (Prod.ext rfl hx)
    rw [hx] at h
    obtain ⟨fault, rfl⟩ := hreading.resolve_left fun hblock => h hblock.1
    exact .inr ⟨fault, rfl⟩
  · exact .inl rfl
  · rw [hx] at h
    exact absurd rfl h

/-- All that a volume shows is read by the calls that get on and the one behind them. -/
theorem readAll_of_calls {r : VolumeReader σ} {n : Nat} (hon : ∀ i < n, GotOn (r.result i))
    (hend : ¬GotOn (r.result n)) : r.readAll.2 = (r.after (n + 1),
      match r.result n with
      | .ok _ => .endOfData
      | .error e => .unreadable e) := by
  induction n generalizing r with
  | zero =>
    rcases hnext : r.nextRecord with ⟨s, e | _ | x⟩
    all_goals
      rw [result_zero_of_next hnext] at hend ⊢
      rw [after_of_next hnext, after]
    · rw [readAll_unreadable hnext hend]
    · rw [readAll_end hnext]
    · exact absurd rfl hend
  | succ n ih =>
    rcases hnext : r.nextRecord with ⟨s, x⟩
    obtain ⟨hfirst, hbefore⟩ := (gotOn_iff_of_next hnext n).mp hon
    rw [result_succ_of_next hnext] at hend
    rw [result_succ_of_next hnext, after_of_next hnext, ← ih hbefore hend]
    rcases x with e | _ | x
    · rw [readAll_damage hnext hfirst]
    · cases hfirst
    · rw [readAll_record hnext]

omit [BlockSource σ] in
theorem blocks_receiveAll (r : VolumeReader σ) (raws : List RawBlock) :
    (r.receiveAll raws).1.stats.blocks = r.stats.blocks + raws.length := by
  induction raws generalizing r with
  | nil => rfl
  | cons raw raws ih =>
    have hone : (r.receive raw).1.stats.blocks = r.stats.blocks + 1 := by
      rw [receive]
      split
      · rfl
      · rw [stats_dropPending, ReaderStats.afterDropping]
        split <;> rfl
    have hrest := ih (r.receive raw).1
    rw [hone, Nat.add_assoc, Nat.add_comm 1] at hrest
    exact hrest

omit [BlockSource σ] in
theorem blocks_afterAll (r : VolumeReader σ) (raws : List RawBlock) (source : σ) :
    (r.afterAll raws source).stats.blocks = r.stats.blocks + raws.length := by
  rw [afterAll, stats_dropPending, ReaderStats.afterDropping, ← blocks_receiveAll]
  split <;> rfl

/-- A visitor is shown the failures of the calls that have been made, one after another. -/
theorem traverse_failures {visit : τ → Finding → τ × Option ε} (count : τ → Int)
    (hvisit : ∀ t f, count (visit t f).1 = count t + (Finding.failures [f]).length) (t : τ)
    (r : VolumeReader σ) :
    ∃ m, r.Leaves (r.traverse visit t).2.1 m ∧
      count (r.traverse visit t).1 = count t + (r.failures m).length := by
  fun_induction traverse visit t r with
  | case1 t r s next =>
    refine ⟨1, leaves_one next, ?_⟩
    rw [failures_one next]
    exact (Int.add_zero _).symm
  | case2 t r s x next u reason shown =>
    have hcount := hvisit t (.record x)
    rw [shown] at hcount
    refine ⟨1, leaves_one next, ?_⟩
    rw [failures_one next]
    exact hcount
  | case3 t r s x next u shown ih =>
    have hcount := hvisit t (.record x)
    rw [shown] at hcount
    obtain ⟨m, hleaves, hrest⟩ := ih
    refine ⟨m + 1, hleaves.more next rfl, ?_⟩
    rw [hrest, failures_of_next next, hcount]
    exact congrArg (· + _) (Int.add_zero _)
  | case4 t r s e next scope u reason shown =>
    have hcount := hvisit t (.damage e)
    rw [shown] at hcount
    refine ⟨1, leaves_one next, ?_⟩
    rw [failures_one next, damage?, if_pos scope]
    exact hcount
  | case5 t r s e next scope u shown ih =>
    have hcount := hvisit t (.damage e)
    rw [shown] at hcount
    obtain ⟨m, hleaves, hrest⟩ := ih
    refine ⟨m + 1, hleaves.more next scope, ?_⟩
    rw [hrest, failures_of_next next, hcount, damage?, if_pos scope, List.length_append]
    change count t + 1 + _ = count t + ((1 + _ : Nat) : Int)
    omega
  | case6 t r s e next scope =>
    refine ⟨1, leaves_one next, ?_⟩
    rw [failures_one next, damage?, if_neg scope]
    exact (Int.add_zero _).symm

end VolumeReader
end BackupVolume
