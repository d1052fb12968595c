import BackupVolume.Proofs.Volume.Exhaustion
import Mathlib.Data.List.ReduceOption

/-! # Every failure is that of a block

Each block that was handed out gives rise to one failure at most: it is refused, or its first piece
does not continue the record that waits, which is then forgotten.
-/
namespace BackupVolume

def Blames (verify : Bool) (key : Option VolumeKey) (raw : RawBlock) (e : Failure) : Prop :=
  LoadedBlock.load verify key raw = .error e ∨
    ∃ x b, e = .record x ∧ LoadedBlock.load verify key raw = .ok b

theorem Blames.scope {verify : Bool} {key : Option VolumeKey} {raw : RawBlock} {e : Failure}
    (h : Blames verify key raw e) : e.scope = .block := by
  rcases h with hload | ⟨x, b, rfl, -⟩
  · exact LoadedBlock.scope_of_load hload
  · rfl

namespace ReaderStats

def damages (t : ReaderStats) : Nat := t.corruptBlocks + t.brokenRecords

theorem damages_afterDropping (t : ReaderStats) (waits : Bool) :
    (t.afterDropping waits).damages = t.damages := by
  rw [afterDropping]
  split <;> rfl

end ReaderStats

namespace VolumeReader
open BlockSource
variable {σ : Type} [BlockSource σ] {verify : Bool} {key : Option VolumeKey} {source : σ}
  {r s : VolumeReader σ} {k : Nat} {ts : List (Option Failure)}

/-- What is told of blocks: nothing, or one failure that is the block's own. -/
def Tells (verify : Bool) (key : Option VolumeKey) (raws : List RawBlock)
    (ts : List (Option Failure)) : Prop :=
  List.Forall₂ (fun raw t => ∀ e ∈ t, Blames verify key raw e) raws ts

theorem Tells.snoc {raws : List RawBlock} (h : Tells verify key raws ts) {raw : RawBlock}
    {t : Option Failure} (ht : ∀ e ∈ t, Blames verify key raw e) :
    Tells verify key (raws ++ [raw]) (ts ++ [t]) := List.rel_append h (.cons ht .nil)

structure Accounts (verify : Bool) (key : Option VolumeKey) (source : σ) (r : VolumeReader σ)
    (k : Nat) (ts : List (Option Failure)) : Prop where
  took : r.Took verify key source k
  tells : Tells verify key (handed source k) ts
  counted : r.stats.damages = ts.reduceOption.length

theorem Accounts.le_blocks (h : r.Accounts verify key source k ts) :
    r.stats.damages ≤ r.stats.blocks := by
  rw [h.counted, h.took.blocks, h.tells.length_eq]
  exact List.reduceOption_length_le ts

/-- With the block that was read last, what is told of it is told of one more block. -/
theorem Took.accounts (h : s.Took verify key source (k + 1))
    (htells : Tells verify key (handed source k) ts) {raw : RawBlock}
    (hread : (read (later source k)).2 = .ok (some raw)) {t : Option Failure}
    (ht : ∀ e ∈ t, Blames verify key raw e)
    (hcounted : s.stats.damages = ts.reduceOption.length + t.toList.length) :
    s.Accounts verify key source (k + 1) (ts ++ [t]) ∧
      (ts ++ [t]).reduceOption = ts.reduceOption ++ t.toList := by
  have hfailures : (ts ++ [t]).reduceOption = ts.reduceOption ++ t.toList := by
    rw [List.reduceOption_append, List.reduceOption_singleton]
  have hblocks : Tells verify key (handed source (k + 1)) (ts ++ [t]) := by
    rw [handed_block (Prod.ext rfl hread)]
    exact htells.snoc ht
  refine ⟨⟨h, hblocks, ?_⟩, hfailures⟩
  rw [hfailures, List.length_append, hcounted]

/-- The block that was read last can give rise to no failure, or none has been told of it. -/
def IsOwed (verify : Bool) (key : Option VolumeKey) (source : σ) (r : VolumeReader σ) (k : Nat)
    (ts : List (Option Failure)) : Prop :=
  r.IsIdle ∨ r.HasBegun verify key source k ∧
    ∃ us, ts = us ++ [none] ∧ Tells verify key (handed source (k - 1)) us

omit [BlockSource σ] in
theorem drain_ne_error (hr : r.IsIdle) (e : Failure) : r.drain.2 ≠ some (.error e) := by
  intro herror
  rw [drain] at herror
  split at herror
  · cases herror
  · next b hcurrent =>
    split at herror
    · cases herror
    · cases herror
    · next hu =>
      obtain ⟨-, hwaits, -⟩ := Assembler.eq_of_unpack_error hu
      rcases hr with hnone | hnone
      · rw [hcurrent] at hnone
        cases hnone
      · rw [Assembler.isPending, hnone] at hwaits
        cases hwaits

/-- Draining tells of the block that was read last, and only where nothing has been told of it. -/
theorem Accounts.drain_error (h : r.Accounts verify key source k ts)
    (hr : r.IsOwed verify key source k ts) {e : Failure} (hd : r.drain = (s, some (.error e))) :
    ∃ us, s.Accounts verify key source k us ∧ s.IsIdle ∧ e.scope = .block ∧
      us.reduceOption = ts.reduceOption ++ [e] := by
  rcases hr with hidle | ⟨hbegun, us, rfl, hus⟩
  · exact absurd (congrArg Prod.snd hd) (drain_ne_error hidle e)
  · obtain ⟨htook, hidle, -, hrecovered⟩ := h.took.drain (.inr hbegun) hd
    obtain ⟨j, raw, rfl, hread, -, hblock⟩ := hrecovered e rfl
    have hblames : Blames verify key raw e := by
      rcases hblock with ⟨hload, -⟩ | ⟨x, b, hx, hload, -⟩
      · exact .inl hload
      · exact .inr ⟨x, b, hx, hload⟩
    have hnone : (us ++ [none]).reduceOption = us.reduceOption := by
      rw [List.reduceOption_append, List.reduceOption_singleton, Option.toList_none,
        List.append_nil]
    have hcounted : s.stats.damages = us.reduceOption.length + 1 := by
      rw [stats_drain hd, ← hnone, ← h.counted]
      rfl
    obtain ⟨haccounts, hfailures⟩ := htook.accounts hus hread (t := some e)
      (by rintro x ⟨rfl⟩; exact hblames) hcounted
    rw [← hnone] at hfailures
    exact ⟨_, haccounts, hidle, hblames.scope, hfailures⟩

theorem Accounts.drain_ok (h : r.Accounts verify key source k ts)
    (hr : r.IsOwed verify key source k ts) {x : Option (Except Failure Record)}
    (hd : r.drain = (s, x)) (hx : ∀ e, x ≠ some (.error e)) :
    s.Accounts verify key source k ts ∧ s.IsIdle ∧ (x = none → s.current = none) := by
  obtain ⟨htook, hidle, hnone, -⟩ := h.took.drain (hr.imp_right And.left) hd
  have hstats : s.stats.damages = r.stats.damages := by
    rw [stats_drain hd]
    rcases x with _ | e | x
    · rfl
    · exact absurd rfl (hx e)
    · rfl
  exact ⟨⟨htook, h.tells, hstats.trans h.counted⟩, hidle, hnone⟩

theorem fetch_cases {f : Fetched} (hf : r.fetch = (s, f)) :
    (∃ fault, (read r.source).2 = .error fault ∧ f = .failed (.device fault)) ∨
    ((read r.source).2 = .ok none ∧ f = .endOfData) ∨
    ∃ raw, (read r.source).2 = .ok (some raw) ∧
      ((∃ b, LoadedBlock.load r.verify r.key raw = .ok b ∧ f = .block) ∨
        ∃ e, LoadedBlock.load r.verify r.key raw = .error e ∧ f = .failed e) := by
  rw [VolumeReader.fetch] at hf
  split at hf
  · next t fault hread =>
    cases hf
    exact .inl ⟨fault, by rw [hread], rfl⟩
  · next t hread =>
    cases hf
    exact .inr (.inl ⟨by rw [hread], rfl⟩)
  · next t raw hread =>
    refine .inr (.inr ⟨raw, by rw [hread], ?_⟩)
    dsimp only at hf
    split at hf
    · next b hload =>
      cases hf
      exact .inl ⟨b, hload, rfl⟩
    · next e hload =>
      cases hf
      exact .inr ⟨e, hload, rfl⟩

def Fetched.damage? : Fetched → Option Failure
  | .failed e => VolumeReader.damage? (.error e)
  | _ => none

/-- Nothing has been told of a block that can be loaded, and one that cannot is refused. -/
theorem Accounts.fetch (h : r.Accounts verify key source k ts) (hr : r.current = none) {f : Fetched}
    (hf : r.fetch = (s, f)) :
    ∃ us, s.Accounts verify key source (k + 1) us ∧ s.IsOwed verify key source (k + 1) us ∧
      (f ≠ .block → s.IsIdle) ∧ us.reduceOption = ts.reduceOption ++ f.damage?.toList := by
  obtain ⟨htook, hbegun, hnone, -⟩ := h.took.fetch hr hf
  have hidle (hf : f ≠ .block) : s.IsIdle := .inl (hnone hf)
  have hstats := congrArg ReaderStats.damages (stats_fetch hf)
  have hcases := fetch_cases hf
  rw [h.took.at_later, h.took.verify, h.took.key] at hcases
  rcases hcases with ⟨fault, hread, rfl⟩ | ⟨hread, rfl⟩ |
    ⟨raw, hread, ⟨b, hload, rfl⟩ | ⟨e, hload, rfl⟩⟩
  · have htells : Tells verify key (handed source (k + 1)) ts := by
      rw [handed_nothing (x := .error fault) (Prod.ext rfl hread) (by rintro raw ⟨⟩)]
      exact h.tells
    exact ⟨ts, ⟨htook, htells, hstats.trans h.counted⟩, .inl (hidle (by rintro ⟨⟩)), hidle,
      (List.append_nil _).symm⟩
  · have htells : Tells verify key (handed source (k + 1)) ts := by
      rw [handed_nothing (x := .ok none) (Prod.ext rfl hread) (by rintro raw ⟨⟩)]
      exact h.tells
    rw [ReaderStats.afterFetching, ReaderStats.damages_afterDropping] at hstats
    exact ⟨ts, ⟨htook, htells, hstats.trans h.counted⟩, .inl (hidle (by rintro ⟨⟩)), hidle,
      (List.append_nil _).symm⟩
  · obtain ⟨haccounts, hfailures⟩ := htook.accounts h.tells hread (t := none) (by rintro e ⟨⟩)
      (hstats.trans h.counted)
    exact ⟨_, haccounts, .inr ⟨hbegun rfl, ts, rfl, h.tells⟩, hidle, hfailures⟩
  · have hscope := LoadedBlock.scope_of_load hload
    have hcounted : s.stats.damages = ts.reduceOption.length + 1 := by
      rw [hstats, ReaderStats.afterFetching, if_pos hscope, ReaderStats.damages_afterDropping,
        ← h.counted, ReaderStats.damages, ReaderStats.damages, Nat.add_right_comm]
    obtain ⟨haccounts, hfailures⟩ := htook.accounts h.tells hread (t := some e)
      (by rintro x ⟨rfl⟩; exact .inl hload) hcounted
    refine ⟨_, haccounts, .inl (hidle (by rintro ⟨⟩)), hidle, ?_⟩
    rw [hfailures, Fetched.damage?, VolumeReader.damage?, if_pos hscope]

/-- A call tells of one block at most. -/
theorem Accounts.nextRecord (h : r.Accounts verify key source k ts)
    (hr : r.IsOwed verify key source k ts) {x : Except Failure (Option Record)}
    (hn : r.nextRecord = (s, x)) :
    ∃ m us, s.Accounts verify key source m us ∧ s.IsIdle ∧
      us.reduceOption = ts.reduceOption ++ (damage? x).toList := by
  fun_induction VolumeReader.nextRecord r generalizing k ts with
  | case1 r t record drained =>
    cases hn
    obtain ⟨haccounts, hidle, -⟩ := h.drain_ok hr drained (by rintro e ⟨⟩)
    exact ⟨k, ts, haccounts, hidle, (List.append_nil _).symm⟩
  | case2 r t e drained =>
    cases hn
    obtain ⟨us, haccounts, hidle, hscope, hfailures⟩ := h.drain_error hr drained
    refine ⟨k, us, haccounts, hidle, ?_⟩
    rw [damage?, if_pos hscope]
    exact hfailures
  | case3 r t drained u fetched =>
    cases hn
    obtain ⟨haccounts, -, hnone⟩ := h.drain_ok hr drained (by rintro e ⟨⟩)
    obtain ⟨us, haccounts, -, hidle, hfailures⟩ := haccounts.fetch (hnone rfl) fetched
    exact ⟨k + 1, us, haccounts, hidle (by rintro ⟨⟩), hfailures⟩
  | case4 r t drained u e fetched =>
    cases hn
    obtain ⟨haccounts, -, hnone⟩ := h.drain_ok hr drained (by rintro e ⟨⟩)
    obtain ⟨us, haccounts, -, hidle, hfailures⟩ := haccounts.fetch (hnone rfl) fetched
    exact ⟨k + 1, us, haccounts, hidle (by rintro ⟨⟩), hfailures⟩
  | case5 r t drained u fetched ih =>
    obtain ⟨haccounts, -, hnone⟩ := h.drain_ok hr drained (by rintro e ⟨⟩)
    obtain ⟨us, haccounts, howed, -, hblock⟩ := haccounts.fetch (hnone rfl) fetched
    obtain ⟨m, vs, haccounts, hidle, hfailures⟩ := ih haccounts howed hn
    refine ⟨m, vs, haccounts, hidle, ?_⟩
    rw [hfailures, hblock, List.append_assoc]
    rfl

/-- The failures that calls give are those that are told of the blocks, in their order. -/
theorem accounts_after (verify : Bool) (key : Option VolumeKey) (source : σ) (n : Nat) :
    ∃ k ts, ((opened verify key source).after n).Accounts verify key source k ts ∧
      ((opened verify key source).after n).IsIdle ∧
      ts.reduceOption = (opened verify key source).failures n := by
  induction n with
  | zero => exact ⟨0, [], ⟨⟨rfl, rfl, rfl, rfl⟩, .nil, rfl⟩, .inl rfl, rfl⟩
  | succ n ih =>
    obtain ⟨k, ts, haccounts, hidle, hfailures⟩ := ih
    rw [after_succ, failures_succ, ← hfailures]
    obtain ⟨m, us, haccounts, hidle, hnext⟩ := haccounts.nextRecord (.inl hidle) rfl
    exact ⟨m, us, haccounts, hidle, hnext⟩

end VolumeReader
end BackupVolume
