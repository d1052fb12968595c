import BackupVolume.Migration.Copy
import BackupVolume.Proofs.Volume.Accounting
import BackupVolume.Restore.Extraction

/-! # Jobs count one failure for each block

A job goes through its volume in finitely many calls. The errors that it counts are those of the
work on records, and one for every failure that reaches no further than a block.
-/
namespace BackupVolume

namespace Job
open VolumeReader
variable {σ τ : Type}

/-- The work of a job, and the errors that have been counted while records were worked on. -/
structure Tallied (τ : Type) where
  work : τ
  errors : Int := 0

def tally (handle : Job τ → Record → Job τ × Except Failure Unit) (j : Job (Tallied τ))
    (r : Record) : Job (Tallied τ) × Except Failure Unit :=
  let (k, x) := handle (j.map Tallied.work) r
  (k.map fun work => { work, errors := j.work.errors + (k.counts.errors - j.counts.errors) }, x)

/-- Keeping the errors does not change what is done. -/
theorem work_tally (handle : Job τ → Record → Job τ × Except Failure Unit) (j : Job (Tallied τ))
    (r : Record) : handle (j.map Tallied.work) r
      = ((tally handle j r).1.map Tallied.work, (tally handle j r).2) := rfl

def others (j : Job (Tallied τ)) : Int := j.counts.errors - j.work.errors

theorem others_tally (handle : Job τ → Record → Job τ × Except Failure Unit) (j : Job (Tallied τ))
    (r : Record) : (tally handle j r).1.others = j.others := by
  simp only [tally, others, map]
  omega

theorem others_visit (proceed : Bool) (rules : Rules)
    (handle : Job τ → Record → Job τ × Except Failure Unit) (j : Job (Tallied τ)) (f : Finding) :
    (visit proceed rules (tally handle) j f).1.others
      = j.others + (Finding.failures [f]).length := by
  have hmeet : (visit proceed rules (tally handle) j f).1.others
      = (meet rules (tally handle) j f).others := by
    obtain ⟨pass, hvisit⟩ := fst_visit proceed rules (tally handle) j f
    rw [hvisit]
    rfl
  rw [hmeet]
  cases f with
  | damage e =>
    change ((j.counts.errors + 1 : Nat) : Int) - j.work.errors
      = j.counts.errors - j.work.errors + 1
    omega
  | record r =>
    rw [meet]
    split
    · exact (others_tally handle _ r).trans (Int.add_zero _).symm
    · exact (Int.add_zero _).symm

variable [BlockSource σ]

/-- The job ends after finitely many calls. The errors that it has counted, but not while it worked
on a record, are the refused blocks and the broken records, no more than there were blocks. -/
def CountsOnce (proceed : Bool) (rules : Rules)
    (handle : Job τ → Record → Job τ × Except Failure Unit) (work : τ) (reader : VolumeReader σ) :
    Prop :=
  ∃ (k : Job (Tallied τ)) (s : VolumeReader σ) (x : Except Failure JobStatus) (m : Nat),
    run proceed rules (tally handle) { work } reader = (k, s, x) ∧
    run proceed rules handle work reader = (k.map Tallied.work, s, x) ∧
    s = reader.after m ∧ (∀ i, i + 1 < m → GotOn (reader.result i)) ∧
    k.counts.errors = k.work.errors + (s.stats.corruptBlocks + s.stats.brokenRecords : Nat) ∧
    s.stats.corruptBlocks + s.stats.brokenRecords ≤ s.stats.blocks

theorem countsOnce_opened (proceed : Bool) (rules : Rules)
    (handle : Job τ → Record → Job τ × Except Failure Unit) (work : τ) (verify : Bool)
    (key : Option VolumeKey) (source : σ) :
    CountsOnce proceed rules handle work (opened verify key source) := by
  rcases hrun : run proceed rules (tally handle) { work } (opened verify key source) with ⟨k, s, x⟩
  have hplain : run proceed rules handle work (opened verify key source)
      = (k.map Tallied.work, s, x) := by
    have hmap := run_map proceed rules Tallied.work (work_tally handle) { work }
      (opened verify key source)
    rw [hrun] at hmap
    exact hmap
  obtain ⟨m, hleaves, hcount⟩ : ∃ m, (opened verify key source).Leaves s m ∧
      k.others = ((opened verify key source).failures m).length := by
    rw [run] at hrun
    split at hrun
    · cases hrun
      exact ⟨0, ⟨rfl, by omega⟩, rfl⟩
    · obtain ⟨m, hleaves, hcount⟩ := traverse_failures others
        (others_visit proceed rules handle) { work := { work } } (opened verify key source)
      cases hrun
      exact ⟨m, hleaves, hcount.trans (Int.zero_add _)⟩
  obtain ⟨hafter, hbefore⟩ := hleaves
  obtain ⟨n, ts, haccounts, -, hfailures⟩ := accounts_after verify key source m
  have hcounted := haccounts.counted
  have hle := haccounts.le_blocks
  rw [hfailures, ← hafter] at hcounted
  rw [← hafter] at hle
  refine ⟨k, s, x, m, hrun, hplain, hafter, hbefore, ?_, hle⟩
  change _ = _ + ((s.stats.damages : Nat) : Int)
  rw [hcounted, ← hcount, others]
  omega

end Job

open VolumeReader BlockSource in
/-- Reading a source to its end takes finitely many calls, each of which gets on: it gives a record,
or a failure that reaches no further than a block. Then the data have come to their end, unless the
device has failed. However many calls are made, each block that was handed out has given rise to one
failure at most, which is its own, and these are the failures that the calls gave, in their order;
those that are counted are no more than the blocks. An extraction and a migration end after finitely
many calls as well, and apart from the work on records they count these failures and nothing else.
-/
theorem reading_ends {σ : Type} [BlockSource σ] (verify : Bool) (key : Option VolumeKey)
    (source : σ) :
    let r := opened verify key source
    (∃ n, (∀ i < n, GotOn (r.result i)) ∧
      (r.result n = .ok none ∨ ∃ fault, r.result n = .error (.device fault)) ∧
      ∀ raws left, Yields source raws left →
        r.result n = .ok none ∧ (r.after (n + 1)).stats.blocks = raws.length) ∧
    (∀ n, ∃ k ts, (r.after n).source = later source k ∧
      List.Forall₂ (fun raw t => ∀ e ∈ t, Blames verify key raw e) (handed source k) ts ∧
      ts.reduceOption = r.failures n ∧ (r.after n).stats.blocks = (handed source k).length ∧
      (r.after n).stats.corruptBlocks + (r.after n).stats.brokenRecords = (r.failures n).length ∧
      (r.after n).stats.corruptBlocks + (r.after n).stats.brokenRecords
        ≤ (r.after n).stats.blocks) ∧
    (∀ (φ η : Type) [FileCreator φ η] (o : JobOptions) (rules : Rules)
      (filter : Selection.PathFilter) (decoder : Decoder) (creator : φ),
      Job.CountsOnce o.proceed rules (Extraction.handle (η := η) o filter) { creator, decoder } r) ∧
    ∀ (κ γ : Type) [BlockSink κ] [Catalog γ] (o : JobOptions) (rules : Rules) (session : Session)
      (writer : VolumeWriter κ) (catalog : γ),
      Job.CountsOnce o.proceed rules (Migration.handle o session) { writer, catalog } r := by
  intro r
  refine ⟨?_, ?_, ?_, ?_⟩
  · obtain ⟨n, hbefore, hend⟩ := exists_end r
    refine ⟨n, hbefore, of_not_gotOn hend, ?_⟩
    intro raws left hyields
    have hread := readAll_yields (r := r) rfl hyields
    have hcalls := readAll_of_calls hbefore hend
    rw [hread] at hcalls
    obtain ⟨hafter, hending⟩ := Prod.mk.inj hcalls
    constructor
    · rcases of_not_gotOn hend with hnone | ⟨fault, hfault⟩
      · exact hnone
      · rw [hfault] at hending
        cases hending
    · rw [← hafter, blocks_afterAll]
      exact Nat.zero_add _
  · intro n
    obtain ⟨k, ts, haccounts, -, hfailures⟩ := accounts_after verify key source n
    exact ⟨k, ts, haccounts.took.at_later, haccounts.tells, hfailures, haccounts.took.blocks,
      hfailures ▸ haccounts.counted, haccounts.le_blocks⟩
  · intro φ η _ o rules filter decoder creator
    exact Job.countsOnce_opened o.proceed rules _ _ verify key source
  · intro κ γ _ _ o rules session writer catalog
    exact Job.countsOnce_opened o.proceed rules _ _ verify key source

open VolumeReader BlockSource in
/-- A volume of two blocks, the second of which does not continue the record of the first one. -/
theorem reading_ends_interrupted :
    let r := opened true none interruptedVolume
    let e : Failure := .record (.brokenContinuation 1 1 3 ⟨7, ⟨2⟩, 1, {}⟩)
    (∃ raws left, Yields interruptedVolume raws left ∧ raws.length = 2 ∧
      ∃ n, 0 < n ∧ (∀ i < n, GotOn (r.result i)) ∧ r.result n = .ok none ∧
        (r.after (n + 1)).stats.blocks = 2) ∧
    r.result 0 = .error e ∧ r.failures 1 = [e] ∧
    (r.after 1).stats.corruptBlocks + (r.after 1).stats.brokenRecords = 1 ∧
    1 ≤ (r.after 1).stats.blocks := by
  intro r e
  have hresult : r.result 0 = .error e := result_interruptedVolume
  have hfailures : r.failures 1 = [e] :=
    failures_one (x := .error e) (Prod.ext rfl hresult)
  have hyields : Yields interruptedVolume _ _ := MemoryVolume.yields_ofBlocks _ _
  obtain ⟨⟨n, hbefore, -, hend⟩, hcounts, -⟩ := reading_ends true none interruptedVolume
  obtain ⟨hnone, hblocks⟩ := hend _ _ hyields
  obtain ⟨-, -, -, -, -, -, hcounted, hle⟩ := hcounts 1
  have hone : (r.after 1).stats.corruptBlocks + (r.after 1).stats.brokenRecords = 1 :=
    hcounted.trans (congrArg List.length hfailures)
  refine ⟨⟨_, _, hyields, rfl, n, ?_, hbefore, hnone, hblocks⟩, hresult, hfailures, hone, ?_⟩
  · apply Nat.pos_of_ne_zero
    rintro rfl
    cases hnone.symm.trans hresult
  · exact Nat.le_trans (Nat.le_of_eq hone.symm) hle

end BackupVolume
