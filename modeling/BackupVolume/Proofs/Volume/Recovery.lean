import BackupVolume.Proofs.Volume.Likeness
import BackupVolume.Proofs.Volume.Remains

/-! # Going on after a failure

A failure that reaches no further than a block leaves no trace in what is read behind it. A block
that is refused is over, and a block whose first piece does not continue the waiting record is read
again from its start: in both cases the reader goes on like one that has just been opened.
-/
namespace BackupVolume

namespace BlockSource
variable {σ : Type} [BlockSource σ] {s t : σ} {raw : RawBlock}

def handed (s : σ) (n : Nat) : List RawBlock :=
  (List.range n).filterMap fun i =>
    match (read (later s i)).2 with
    | .ok found => found
    | .error _ => none

theorem later_succ (s : σ) (n : Nat) : later s (n + 1) = (read (later s n)).1 := by
  induction n generalizing s with
  | zero => rfl
  | succ n ih => exact ih (read s).1

theorem handed_block {n : Nat} (h : read (later s n) = (t, .ok (some raw))) :
    handed s (n + 1) = handed s n ++ [raw] := by
  simp only [handed, List.range_succ, List.filterMap_append, List.filterMap_cons, h,
    List.filterMap_nil]

theorem handed_nothing {n : Nat} {x : Except IoFault (Option RawBlock)}
    (h : read (later s n) = (t, x)) (hx : ∀ raw, x ≠ .ok (some raw)) :
    handed s (n + 1) = handed s n := by
  rw [handed, List.range_succ, List.filterMap_append, ← handed]
  rcases x with e | _ | raw
  · simp only [List.filterMap_cons, h, List.filterMap_nil, List.append_nil]
  · simp only [List.filterMap_cons, h, List.filterMap_nil, List.append_nil]
  · exact absurd rfl (hx raw)

end BlockSource

namespace Assembler
variable {a c : Assembler} {b d : LoadedBlock}

theorem pending_of_settle_record {f : Fragment} {x : Record}
    (h : a.settle f b = (c, d, .record x)) : c.pending = none := by
  simp only [settle] at h
  split at h <;> cases h
  rfl

/-- Behind a record that is handed out nothing waits. -/
theorem pending_of_unpack_record {x : Record} (h : a.unpack b = (c, d, .ok (.record x))) :
    c.pending = none := by
  fun_induction unpack a b with
  | case1 a b n raw short => cases h
  | case2 a b n raw long head f waits continued a' b' u settled =>
    cases h
    exact pending_of_settle_record settled
  | case3 a b n raw long head f waits broken => cases h
  | case4 a b n raw long head waits continuation ih => exact ih h
  | case5 a b n raw long head waits first a' b' u settled =>
    cases h
    exact pending_of_settle_record settled

end Assembler

namespace VolumeReader
open BlockSource
variable {σ ρ : Type}

def opened (verify : Bool) (key : Option VolumeKey) (source : σ) : VolumeReader σ :=
  { source, verify, key }

theorem current_dropPending (r : VolumeReader σ) : r.dropPending.current = r.current := by
  rw [dropPending]
  split <;> rfl

theorem pending_dropPending (r : VolumeReader σ) : r.dropPending.assembler.pending = none := by
  rw [assembler_dropPending]
  rfl

variable [BlockSource σ] [BlockSource ρ]

theorem after_succ (r : VolumeReader σ) (n : Nat) :
    r.after (n + 1) = (r.after n).nextRecord.1 := by
  induction n generalizing r with
  | zero => rfl
  | succ n ih => exact ih r.nextRecord.1

/-- From here on the reader gives what the other one gives, and leaves the same blocks unread. -/
structure GoesOnLike (r : VolumeReader σ) (s : VolumeReader ρ) : Prop where
  results : ∀ n, r.result n = s.result n
  sources : ∀ n, Mirrors (r.after (n + 1)).source (s.after (n + 1)).source

theorem GoesOnLike.of_alike {r : VolumeReader σ} {s : VolumeReader ρ} (h : r.Alike s) :
    r.GoesOnLike s := ⟨h.result, fun n => (h.after (n + 1)).source⟩

/-- Only what the next call gives and leaves behind counts. -/
theorem GoesOnLike.of_nextRecord {r : VolumeReader σ} {s t : VolumeReader ρ} (h : r.GoesOnLike s)
    (hn : t.nextRecord = s.nextRecord) : r.GoesOnLike t := by
  have hafter (n : Nat) : t.after (n + 1) = s.after (n + 1) := by rw [after, after, hn]
  refine ⟨fun n => ?_, fun n => hafter n ▸ h.sources n⟩
  rw [h.results]
  cases n with
  | zero => rw [result, result, after, after, hn]
  | succ n => rw [result, result, hafter]

variable {source : σ} {verify : Bool} {key : Option VolumeKey} {r s : VolumeReader σ} {k : Nat}

structure Took (verify : Bool) (key : Option VolumeKey) (source : σ) (r : VolumeReader σ)
    (k : Nat) : Prop where
  at_later : r.source = later source k
  verify : r.verify = verify
  key : r.key = key
  blocks : r.stats.blocks = (handed source k).length

/-- No record waits while a block is being drained. -/
def IsIdle (r : VolumeReader σ) : Prop := r.current = none ∨ r.assembler.pending = none

/-- The current block is the one that was read last, and nothing has been taken from it. -/
def HasBegun (verify : Bool) (key : Option VolumeKey) (source : σ) (r : VolumeReader σ)
    (k : Nat) : Prop :=
  ∃ j raw b, k = j + 1 ∧ (read (later source j)).2 = .ok (some raw) ∧
    LoadedBlock.load verify key raw = .ok b ∧ r.current = some b

/-- The reader behind a failure: nothing waits, and the block that was read last has been refused,
or is there as a whole. -/
def Recovered (verify : Bool) (key : Option VolumeKey) (source : σ) (r : VolumeReader σ) (k : Nat)
    (e : Failure) : Prop :=
  ∃ j raw, k = j + 1 ∧ (read (later source j)).2 = .ok (some raw) ∧ r.assembler.pending = none ∧
    ((LoadedBlock.load verify key raw = .error e ∧ r.current = none) ∨
      ∃ x b, e = .record x ∧ LoadedBlock.load verify key raw = .ok b ∧ r.current = some b)

theorem Took.dropPending (h : r.Took verify key source k) :
    r.dropPending.Took verify key source k := by
  rw [VolumeReader.dropPending]
  split
  · exact ⟨h.at_later, h.verify, h.key, h.blocks⟩
  · exact h

/-- Draining reads nothing. A piece that does not continue the waiting record is the first one of
its block, since a record waits only while there is no current block. -/
theorem Took.drain (h : r.Took verify key source k)
    (hr : r.IsIdle ∨ r.HasBegun verify key source k) {x : Option (Except Failure Record)}
    (hd : r.drain = (s, x)) :
    s.Took verify key source k ∧ s.IsIdle ∧ (x = none → s.current = none) ∧
      ∀ e, x = some (.error e) → s.Recovered verify key source k e := by
  rw [VolumeReader.drain] at hd
  split at hd
  · next hcurrent =>
    cases hd
    exact ⟨h, .inl hcurrent, fun _ => hcurrent, by rintro e ⟨⟩⟩
  · next b hcurrent =>
    split at hd
    · next hu =>
      cases hd
      exact ⟨⟨h.at_later, h.verify, h.key, h.blocks⟩,
        .inr (Assembler.pending_of_unpack_record hu), by rintro ⟨⟩, by rintro e ⟨⟩⟩
    · cases hd
      exact ⟨⟨h.at_later, h.verify, h.key, h.blocks⟩, .inl rfl, fun _ => rfl, by rintro e ⟨⟩⟩
    · next x hu =>
      cases hd
      obtain ⟨rfl, hwaits, rfl⟩ := Assembler.eq_of_unpack_error hu
      refine ⟨⟨h.at_later, h.verify, h.key, h.blocks⟩, .inr rfl, by rintro ⟨⟩, ?_⟩
      rintro e ⟨rfl⟩
      rcases hr with (hnone | hnone) | ⟨j, raw, b', hk, hread, hload, hsome⟩
      · simp [hcurrent] at hnone
      · simp [Assembler.isPending, hnone] at hwaits
      · rw [hcurrent] at hsome
        exact ⟨j, raw, hk, hread, rfl, .inr ⟨x, b', rfl, hload, hsome⟩⟩

/-- Fetching reads once. -/
theorem Took.fetch (h : r.Took verify key source k) (hr : r.current = none) {f : Fetched}
    (hf : r.fetch = (s, f)) :
    s.Took verify key source (k + 1) ∧ (f = .block → s.HasBegun verify key source (k + 1)) ∧
      (f ≠ .block → s.current = none) ∧
      ∀ e, f = .failed e → e.scope = .block → s.Recovered verify key source (k + 1) e := by
  rw [VolumeReader.fetch] at hf
  split at hf
  · next t e hread =>
    cases hf
    rw [h.at_later] at hread
    have hblocks := handed_nothing hread (by rintro raw ⟨⟩)
    refine ⟨⟨by rw [later_succ, hread], h.verify, h.key, by rw [hblocks, h.blocks]⟩,
      by rintro ⟨⟩, fun _ => hr, ?_⟩
    rintro e ⟨rfl⟩ hscope
    cases hscope
  · next t hread =>
    cases hf
    rw [h.at_later] at hread
    have hblocks := handed_nothing hread (by rintro raw ⟨⟩)
    exact ⟨Took.dropPending ⟨by rw [later_succ, hread], h.verify, h.key, by rw [hblocks, h.blocks]⟩,
      by rintro ⟨⟩, fun _ => by rw [current_dropPending, hr], by rintro e ⟨⟩⟩
  · next t raw hread =>
    rw [h.at_later] at hread
    have hlater : t = later source (k + 1) := by rw [later_succ, hread]
    have hblocks : r.stats.blocks + 1 = (handed source (k + 1)).length := by
      rw [handed_block hread, List.length_append, h.blocks, List.length_singleton]
    simp only [h.verify, h.key] at hf
    split at hf
    · next b hload =>
      cases hf
      exact ⟨⟨hlater, rfl, rfl, hblocks⟩,
        fun _ => ⟨k, raw, b, rfl, by rw [hread], hload, rfl⟩, fun hne => absurd rfl hne,
        by rintro e ⟨⟩⟩
    · next x hload =>
      cases hf
      refine ⟨Took.dropPending ⟨hlater, rfl, rfl, hblocks⟩, by rintro ⟨⟩,
        fun _ => by rw [current_dropPending, hr], ?_⟩
      rintro e ⟨rfl⟩ hscope
      exact ⟨k, raw, rfl, by rw [hread], pending_dropPending _,
        .inl ⟨hload, by rw [current_dropPending, hr]⟩⟩

theorem Took.nextRecord (h : r.Took verify key source k)
    (hr : r.IsIdle ∨ r.HasBegun verify key source k) {x : Except Failure (Option Record)}
    (hn : r.nextRecord = (s, x)) :
    ∃ m, s.Took verify key source m ∧ s.IsIdle ∧
      ∀ e, x = .error e → e.scope = .block → s.Recovered verify key source m e := by
  fun_induction VolumeReader.nextRecord r generalizing k with
  | case1 r t record drained =>
    cases hn
    obtain ⟨htook, hidle, -, -⟩ := h.drain hr drained
    exact ⟨k, htook, hidle, by rintro e ⟨⟩⟩
  | case2 r t e drained =>
    cases hn
    obtain ⟨htook, hidle, -, hrecovered⟩ := h.drain hr drained
    refine ⟨k, htook, hidle, ?_⟩
    rintro e ⟨rfl⟩ -
    exact hrecovered _ rfl
  | case3 r t drained u fetched =>
    cases hn
    obtain ⟨htook, -, hnone, -⟩ := h.drain hr drained
    obtain ⟨htook, -, hnone, -⟩ := htook.fetch (hnone rfl) fetched
    exact ⟨k + 1, htook, .inl (hnone (by rintro ⟨⟩)), by rintro e ⟨⟩⟩
  | case4 r t drained u e fetched =>
    cases hn
    obtain ⟨htook, -, hnone, -⟩ := h.drain hr drained
    obtain ⟨htook, -, hnone, hrecovered⟩ := htook.fetch (hnone rfl) fetched
    refine ⟨k + 1, htook, .inl (hnone (by rintro ⟨⟩)), ?_⟩
    rintro e ⟨rfl⟩ hscope
    exact hrecovered _ rfl hscope
  | case5 r t drained u fetched ih =>
    obtain ⟨htook, -, hnone, -⟩ := h.drain hr drained
    obtain ⟨htook, hbegun, -, -⟩ := htook.fetch (hnone rfl) fetched
    exact ih htook (.inr (hbegun rfl)) hn

theorem took_after (verify : Bool) (key : Option VolumeKey) (source : σ) (n : Nat) :
    ∃ k, ((opened verify key source).after n).Took verify key source k ∧
      ((opened verify key source).after n).IsIdle := by
  induction n with
  | zero => exact ⟨0, ⟨rfl, rfl, rfl, rfl⟩, .inl rfl⟩
  | succ n ih =>
    obtain ⟨k, htook, hidle⟩ := ih
    rw [after_succ]
    obtain ⟨m, htook, hidle, -⟩ := htook.nextRecord (.inl hidle) rfl
    exact ⟨m, htook, hidle⟩

/-- Opened before a block that can be loaded, a reader is soon like one that has it before it. -/
theorem goesOnLike_begun {raw : RawBlock} {b : LoadedBlock} {again : ρ}
    (hs : s.verify = verify ∧ s.key = key ∧ s.current = some b ∧ s.assembler.pending = none)
    (hload : LoadedBlock.load verify key raw = .ok b) {j : Nat}
    (hread : (read (later source j)).2 = .ok (some raw)) (hsource : s.source = later source (j + 1))
    (hagain : Mirrors again (later source j)) : s.GoesOnLike (opened verify key again) := by
  obtain ⟨hreading, hrest⟩ := hagain.read
  rw [reading, reading, hread] at hreading
  rcases hr : read again with ⟨t, e | _ | copy⟩ <;> rw [hr] at hreading hrest <;>
    simp only [Except.map, Option.map, reduceCtorEq, Except.ok.injEq, Option.some.injEq] at hreading
  obtain ⟨d, hd, hsame⟩ : ∃ d, LoadedBlock.load verify key copy = .ok d ∧
      b.contents = d.contents := by
    have hcongr := LoadedBlock.load_congr verify key hreading
    rw [hload] at hcongr
    rcases hd : LoadedBlock.load verify key copy with e | d <;>
      simp only [hd, Except.map, reduceCtorEq, Except.ok.injEq] at hcongr
    exact ⟨d, rfl, hcongr.symm⟩
  obtain ⟨hverify, hkey, hcurrent, hpending⟩ := hs
  have hfetch : (opened verify key again).fetch
      = ({ opened verify key t with current := some d, stats := { blocks := 1 } }, .block) := by
    simp only [fetch, opened, hr, hd]
  refine GoesOnLike.of_nextRecord (s :=
    { opened verify key t with current := some d, stats := { blocks := 1 } }) (.of_alike ?_)
    (nextRecord_fetched rfl hfetch)
  refine ⟨?_, hverify, hkey, ?_, hpending⟩
  · rw [hsource, later_succ]
    exact hrest.symm
  · rw [hcurrent]
    exact congrArg some hsame

/-- Behind a failure that reaches no further than a block, reading goes on like that of a reader
which has just been opened: on the blocks behind the refused one, or on the block whose first piece
does not continue the waiting record and the ones behind it. -/
theorem goesOnLike_opened_of_failure {n : Nat} {e : Failure}
    (he : (opened verify key source).result n = .error e) (hscope : e.scope = .block) :
    ∃ j raw, ((opened verify key source).after (n + 1)).source = later source (j + 1) ∧
      ((opened verify key source).after (n + 1)).stats.blocks = (handed source (j + 1)).length ∧
      (read (later source j)).2 = .ok (some raw) ∧
      ((LoadedBlock.load verify key raw = .error e ∧
          ∀ {ρ : Type} [BlockSource ρ] (again : ρ), Mirrors again (later source (j + 1)) →
            ((opened verify key source).after (n + 1)).GoesOnLike (opened verify key again)) ∨
        ((∃ x b, e = .record x ∧ LoadedBlock.load verify key raw = .ok b) ∧
          ∀ {ρ : Type} [BlockSource ρ] (again : ρ), Mirrors again (later source j) →
            ((opened verify key source).after (n + 1)).GoesOnLike (opened verify key again))) := by
  obtain ⟨k, htook, hidle⟩ := took_after verify key source n
  obtain ⟨m, htook, -, hrecovered⟩ := htook.nextRecord (.inl hidle) rfl
  obtain ⟨j, raw, rfl, hread, hpending, hblock⟩ := hrecovered e he hscope
  rw [after_succ]
  refine ⟨j, raw, htook.at_later, htook.blocks, hread, ?_⟩
  rcases hblock with ⟨hload, hcurrent⟩ | ⟨x, b, hx, hload, hcurrent⟩
  · refine .inl ⟨hload, fun again hagain => .of_alike ⟨?_, htook.verify, htook.key, ?_, hpending⟩⟩
    · rw [htook.at_later]
      exact hagain.symm
    · rw [hcurrent]
      rfl
  · refine .inr ⟨⟨x, b, hx, hload⟩, fun again hagain => ?_⟩
    exact goesOnLike_begun ⟨htook.verify, htook.key, hcurrent, hpending⟩ hload hread
      htook.at_later hagain

def pieceBlock (number : UInt32) (head : PieceHeader) (data : Bytes) : Bytes :=
  ((⟨.bb03, .none, 0, number, {}, 0⟩ : BlockHeader).encode (head.toBytes .bb03 ++ data)).2

def startedBlock : Bytes := pieceBlock 0 ⟨1, ⟨2⟩, 5, {}⟩ [10, 20]

def waitingReader (source : σ) : VolumeReader σ :=
  { opened true none source with
    assembler := { pending := some ⟨⟨1, ⟨2⟩, 5, {}⟩, 0, #[10, 20], 3⟩ }
    stats := { blocks := 1 } }

theorem nextRecord_started {left : σ}
    (hread : BlockSource.read source = (left, .ok (some ⟨0, startedBlock⟩))) :
    (opened true none source).nextRecord = (waitingReader left).nextRecord := by
  let b : LoadedBlock := ⟨⟨.bb03, .none, 38, 0, {}, 0⟩, 0,
    PieceHeader.toBytes .bb03 ⟨1, ⟨2⟩, 5, {}⟩ ++ [10, 20]⟩
  have hload : LoadedBlock.load true none ⟨0, startedBlock⟩ = .ok b := rfl
  have hfetch : (opened true none source).fetch
      = ({ opened true none left with current := some b, stats := { blocks := 1 } }, .block) := by
    simp only [fetch, opened, hread, hload]
  rw [nextRecord_fetched rfl hfetch]
  exact nextRecord_exhausted (drain_exhausted (b := b) rfl
    (Assembler.unpack_first rfl rfl rfl (by decide) rfl (by decide))) rfl

def interruptedVolume : MemoryVolume :=
  .ofBlocks "volume" [startedBlock, pieceBlock 1 ⟨7, ⟨2⟩, 1, {}⟩ [30]]

def interruptedReader : VolumeReader MemoryVolume :=
  { waitingReader { interruptedVolume with cursor := 2 } with
    current := some ⟨⟨.bb03, .none, 37, 1, {}, 0⟩, 1,
      PieceHeader.toBytes .bb03 ⟨7, ⟨2⟩, 1, {}⟩ ++ [30]⟩
    stats := { blocks := 2 } }

theorem result_interruptedVolume : (opened true none interruptedVolume).result 0
    = .error (.record (.brokenContinuation 1 1 3 ⟨7, ⟨2⟩, 1, {}⟩)) := by
  have hstarted : (opened true none interruptedVolume).nextRecord
      = (waitingReader { interruptedVolume with cursor := 1 }).nextRecord := nextRecord_started rfl
  have hfetched : (waitingReader { interruptedVolume with cursor := 1 }).nextRecord
      = interruptedReader.nextRecord := nextRecord_fetched (f := .block) rfl rfl
  have hbroken := drain_error (r := interruptedReader) rfl
    (Assembler.unpack_broken rfl rfl rfl (by decide) rfl (by decide))
  rw [result, after, hstarted, hfetched, nextRecord_drained hbroken]
  rfl

theorem goesOnLike_opened_interruptedVolume :
    (opened true none interruptedVolume).result 0
        = .error (.record (.brokenContinuation 1 1 3 ⟨7, ⟨2⟩, 1, {}⟩)) ∧
      (Failure.record (.brokenContinuation 1 1 3 ⟨7, ⟨2⟩, 1, {}⟩)).scope = .block ∧
      ∃ j, ((opened true none interruptedVolume).after 1).GoesOnLike
        (opened true none (later interruptedVolume j)) := by
  obtain ⟨j, raw, -, -, -, ⟨-, hbehind⟩ | ⟨-, hagain⟩⟩ :=
    goesOnLike_opened_of_failure result_interruptedVolume rfl
  · exact ⟨result_interruptedVolume, rfl, j + 1, hbehind _ (.refl _)⟩
  · exact ⟨result_interruptedVolume, rfl, j, hagain _ (.refl _)⟩

end VolumeReader
end BackupVolume
