import BackupVolume.Device.Source
import BackupVolume.Failure

/-! # Reading volumes

A reader takes blocks from a source, checks and opens them, and puts records together. A damaged
block or a broken record is told once, and reading goes on behind it. Every record and every such
failure uses up part of the volume, so that reading comes to an end.
-/
namespace BackupVolume

structure ReaderStats where
  blocks : Nat := 0
  corruptBlocks : Nat := 0
  brokenRecords : Nat := 0
  /-- Records dropped because their later pieces could not be read. -/
  dropped : Nat := 0
  deriving DecidableEq

structure VolumeReader (σ : Type) where
  source : σ
  verify : Bool := true
  key : Option VolumeKey := none
  current : Option LoadedBlock := none
  assembler : Assembler := {}
  stats : ReaderStats := {}

/-- Checks a raw block, and opens its record area if it is sealed. -/
def LoadedBlock.load (verify : Bool) (key : Option VolumeKey) (raw : RawBlock) :
    Except Failure LoadedBlock :=
  match LoadedBlock.decode verify raw.address raw.bytes with
  | .error e => .error (.header e)
  | .ok b =>
    if b.header.options.contains .blockSealed then
      match key with
      | none => .error (.crypto .missingKey)
      | some k =>
        match k.decrypt (VolumeKey.associatedData b.number b.session) b.rest with
        | .ok plain => .ok { b with rest := plain }
        | .error e => .error (.crypto e)
    else .ok b

theorem LoadedBlock.scope_of_load {verify : Bool} {key : Option VolumeKey} {raw : RawBlock}
    {e : Failure} (h : LoadedBlock.load verify key raw = .error e) : e.scope = .block := by
  rw [load] at h
  repeat' split at h
  all_goals first
    | cases h; rfl
    | simp at h

theorem LoadedBlock.ne_of_load {verify : Bool} {key : Option VolumeKey} {raw : RawBlock}
    {e : Failure} (h : LoadedBlock.load verify key raw = .error e) :
    e ≠ .crypto .encryptionFailed := by
  rintro rfl
  rw [load] at h
  repeat' split at h
  all_goals cases h
  next hdecrypt => exact VolumeKey.ne_of_decrypt hdecrypt rfl

namespace VolumeReader
variable {σ : Type}

def dropPending (r : VolumeReader σ) : VolumeReader σ :=
  if r.assembler.isPending then
    { r with
      assembler := r.assembler.discard
      stats := { r.stats with dropped := r.stats.dropped + 1 } }
  else r

/-- Takes from the current block what it still has: a record, or a failure. -/
def drain (r : VolumeReader σ) : VolumeReader σ × Option (Except Failure Record) :=
  match r.current with
  | none => (r, none)
  | some b =>
    match r.assembler.unpack b with
    | (assembler, b, .ok (.record record)) =>
      ({ r with assembler, current := some b }, some (.ok record))
    | (assembler, _, .ok .exhausted) => ({ r with assembler, current := none }, none)
    | (assembler, b, .error e) =>
      ({ r with
        assembler
        current := some b
        stats := { r.stats with brokenRecords := r.stats.brokenRecords + 1 } },
        some (.error (.record e)))

theorem source_drain (r : VolumeReader σ) : r.drain.1.source = r.source := by
  rw [drain]
  repeat' split
  all_goals rfl

theorem source_dropPending (r : VolumeReader σ) : r.dropPending.source = r.source := by
  rw [dropPending]
  split <;> rfl

variable [BlockSource σ]

inductive Fetched where
  | endOfData
  | block
  | failed (e : Failure)

def fetch (r : VolumeReader σ) : VolumeReader σ × Fetched :=
  match BlockSource.read r.source with
  | (source, .error e) => ({ r with source }, .failed (.device e))
  | (source, .ok none) => ({ r with source }.dropPending, .endOfData)
  | (source, .ok (some raw)) =>
    let stats := { r.stats with blocks := r.stats.blocks + 1 }
    match LoadedBlock.load r.verify r.key raw with
    | .ok b => ({ r with source, stats, current := some b }, .block)
    | .error e =>
      let stats := { stats with corruptBlocks := stats.corruptBlocks + 1 }
      ({ r with source, stats }.dropPending, .failed e)

/-- A block that is fetched, damaged or not, is one less to be read. -/
theorem remaining_fetch {r s : VolumeReader σ} {f : Fetched} (h : r.fetch = (s, f))
    (found : f = .block ∨ ∃ e, f = .failed e ∧ e.scope = .block) :
    BlockSource.remaining s.source < BlockSource.remaining r.source := by
  rw [fetch] at h
  split at h
  · simp only [Prod.mk.injEq] at h
    obtain ⟨-, rfl⟩ := h
    simp [Failure.scope] at found
  · simp only [Prod.mk.injEq] at h
    obtain ⟨-, rfl⟩ := h
    simp at found
  · next read_eq =>
    have := BlockSource.remaining_read read_eq
    simp only at h
    split at h <;> simp only [Prod.mk.injEq] at h <;> rw [← h.1]
    · exact this
    · rw [source_dropPending]
      exact this

/-- The next complete record, or nothing at the end of the data. After a failure that reaches no
further than a block, reading can go on. -/
def nextRecord (r : VolumeReader σ) : VolumeReader σ × Except Failure (Option Record) :=
  match _drained : r.drain with
  | (s, some (.ok record)) => (s, .ok (some record))
  | (s, some (.error e)) => (s, .error e)
  | (s, none) =>
    match _fetched : s.fetch with
    | (t, .endOfData) => (t, .ok none)
    | (t, .failed e) => (t, .error e)
    | (t, .block) => nextRecord t
termination_by BlockSource.remaining r.source
decreasing_by
  have same := source_drain r
  rw [_drained] at same
  rw [← same]
  exact remaining_fetch _fetched (.inl rfl)

/-- How much is left to read: blocks of the source, octets of the current block, and whether a
record waits for more. -/
def left (r : VolumeReader σ) : Nat × Nat × Nat :=
  (BlockSource.remaining r.source, r.current.elim 0 (fun b => b.rest.length),
    if r.assembler.isPending then 1 else 0)

def Precedes (p q : Nat × Nat × Nat) : Prop :=
  Prod.Lex (· < ·) (Prod.Lex (· < ·) (· < ·)) p q

/-- What is drained from a block uses it up, or ends the waiting for a record. -/
theorem left_drain {r s : VolumeReader σ} {x : Except Failure Record}
    (h : r.drain = (s, some x)) : Precedes s.left r.left := by
  rw [drain] at h
  split at h
  · simp at h
  · next b is_current =>
    split at h
    · next unpacked =>
      have := Assembler.rest_lt_of_unpack unpacked
      simp only [Prod.mk.injEq] at h
      rw [← h.1]
      apply Prod.Lex.right
      apply Prod.Lex.left
      simpa [is_current] using this
    · simp at h
    · next unpacked =>
      obtain ⟨rfl, waits, rfl⟩ := Assembler.eq_of_unpack_error unpacked
      simp only [Prod.mk.injEq] at h
      rw [← h.1]
      apply Prod.Lex.right
      simp only [is_current, Option.elim_some, waits]
      apply Prod.Lex.right
      simp [Assembler.isPending, Assembler.discard]

/-- Reading has got on: a record came out, or a failure behind which there may be more. -/
def GotOn (x : Except Failure (Option Record)) : Prop :=
  match x with
  | .ok r => r.isSome
  | .error e => e.scope = .block

theorem remaining_le_of_precedes {r s : VolumeReader σ} (h : Precedes s.left r.left) :
    BlockSource.remaining s.source ≤ BlockSource.remaining r.source := by
  rcases Prod.lex_def.mp h with h | h
  · exact Nat.le_of_lt h
  · exact Nat.le_of_eq h.1

/-- As long as reading gets on, less and less is left. -/
theorem left_nextRecord {r s : VolumeReader σ} {x : Except Failure (Option Record)}
    (h : r.nextRecord = (s, x)) (on : GotOn x) : Precedes s.left r.left := by
  fun_induction nextRecord r with
  | case1 r t record drained =>
    simp only [Prod.mk.injEq] at h
    rw [← h.1]
    exact left_drain drained
  | case2 r t e drained =>
    simp only [Prod.mk.injEq] at h
    rw [← h.1]
    exact left_drain drained
  | case3 r t drained u fetched =>
    simp only [Prod.mk.injEq] at h
    rw [← h.2] at on
    simp [GotOn] at on
  | case4 r t drained u e fetched =>
    simp only [Prod.mk.injEq] at h
    have same := source_drain r
    rw [drained] at same
    rw [← h.2] at on
    rw [← h.1]
    apply Prod.Lex.left
    rw [← same]
    exact remaining_fetch fetched (.inr ⟨e, rfl, on⟩)
  | case5 r t drained u fetched ih =>
    have same := source_drain r
    rw [drained] at same
    have := remaining_le_of_precedes (ih h)
    have := remaining_fetch fetched (.inl rfl)
    apply Prod.Lex.left
    simp only at same
    rw [same] at this
    omega

end VolumeReader
end BackupVolume
