import BackupVolume.Proofs.Volume.Placement

/-! # Keeping what a sink is handed

A recorder stands in front of a sink and keeps every block that the sink is handed, taken or not.
A writer does not notice: without the record its run is the run on the sink itself.
-/
namespace BackupVolume

structure Recorder (κ : Type) where
  sink : κ
  handed : List Bytes := []

instance {κ : Type} [BlockSink κ] : BlockSink (Recorder κ) where
  name r := BlockSink.name r.sink
  write r b :=
    let (sink, x) := BlockSink.write r.sink b
    (⟨sink, r.handed ++ [b]⟩, x)
  canWrite r := BlockSink.canWrite r.sink
  release r :=
    let (sink, x) := BlockSink.release r.sink
    ({ r with sink }, x)

structure BlockSink.Hom (κ ρ : Type) [BlockSink κ] [BlockSink ρ] where
  state : κ → ρ
  name (k : κ) : BlockSink.name (state k) = BlockSink.name k
  write (k : κ) (b : Bytes) :
    BlockSink.write (state k) b = (state (BlockSink.write k b).1, (BlockSink.write k b).2)

def Recorder.unrecorded {κ : Type} [BlockSink κ] : BlockSink.Hom (Recorder κ) κ where
  state := sink
  name _ := rfl
  write _ _ := rfl

namespace VolumeWriter
variable {κ : Type} [BlockSink κ]

def proceed (w : VolumeWriter κ) : WriterStep → VolumeWriter κ
  | .record r => (w.writeRecord r).1
  | .flush => w.flush.1

def proceedAll (w : VolumeWriter κ) (steps : List WriterStep) : VolumeWriter κ :=
  steps.foldl proceed w

theorem proceedAll_append (w : VolumeWriter κ) (xs ys : List WriterStep) :
    w.proceedAll (xs ++ ys) = (w.proceedAll xs).proceedAll ys := List.foldl_append

def unrecorded (w : VolumeWriter (Recorder κ)) : VolumeWriter κ :=
  { w with sink := w.sink.sink }

theorem mem_handed_of_write {r r' : Recorder κ} {raw bytes : Bytes} {x : Except IoFault Unit}
    (h : BlockSink.write r raw = (r', x)) : bytes ∈ r'.handed ↔ bytes ∈ r.handed ∨ bytes = raw := by
  simp only [BlockSink.write, Prod.mk.injEq] at h
  rw [← h.1, List.mem_append, List.mem_singleton]

/-- Taken or not, a block that can be sealed is handed over. -/
theorem mem_handed_flush {w v : VolumeWriter (Recorder κ)} {x : Except Failure Unit} {bytes : Bytes}
    (h : w.Flushes v x) : bytes ∈ v.sink.handed ↔
      bytes ∈ w.sink.handed ∨ w.draft.isEmpty = false ∧ w.block = .ok bytes := by
  cases h with
  | empty he => simp [he]
  | unsealed _ hblock => simp [hblock]
  | refused he hblock hwrite => simp [he, hblock, mem_handed_of_write hwrite, eq_comm]
  | taken he hblock hwrite => simp [he, hblock, mem_handed_of_write hwrite, eq_comm]

section Store
variable {w v : VolumeWriter κ} {o left : Outstanding} {d : DraftBlock}

theorem store_complete (hp : w.draft.pack o = some (d, left)) (hc : left.isComplete = true) :
    w.store o = ({ w with draft := d }, left, .ok ()) := by
  rw [store]
  split <;> rename_i packed <;> rw [hp] at packed <;> cases packed
  simp only
  split <;> rename_i done <;> rw [hc] at done
  cases done

theorem store_partly {x : Except Failure Unit} (hp : w.draft.pack o = some (d, left))
    (hc : left.isComplete = false)
    (hf : ({ w with draft := d } : VolumeWriter κ).flush = (v, x)) :
    w.store o = match x with
      | .error e => (v, left, .error e)
      | .ok () => v.store left := by
  rw [store]
  split <;> rename_i packed <;> rw [hp] at packed <;> cases packed
  simp only
  split <;> rename_i done <;> rw [hc] at done <;> cases done
  simp only [hf]
  cases x <;> rfl

theorem store_empty (hp : w.draft.pack o = none) (he : w.draft.isEmpty = true) :
    w.store o = (w, o, .error (.config (.noRoomForRecord w.draft.capacity))) := by
  rw [store]
  split <;> rename_i packed <;> rw [hp] at packed <;> cases packed
  split <;> rename_i empty <;> rw [he] at empty
  cases empty

theorem store_behind {x : Except Failure Unit} (hp : w.draft.pack o = none)
    (he : w.draft.isEmpty = false) (hf : w.flush = (v, x)) :
    w.store o = match x with
      | .error e => (v, o, .error e)
      | .ok () => v.store o := by
  rw [store]
  split <;> rename_i packed <;> rw [hp] at packed <;> cases packed
  split <;> rename_i empty <;> rw [he] at empty <;> cases empty
  split <;> rename_i flushed <;> rw [hf] at flushed <;> cases flushed <;> rfl

end Store

section Induction
variable {P : VolumeWriter κ → Prop} {w : VolumeWriter κ}

/-- What packing and flushing keep is kept by storing a record, whether it succeeds or not. `Q` is
what is known of the part of the record that is still to be packed. -/
theorem store_induction {Q : Outstanding → Prop}
    (hpack : ∀ {w : VolumeWriter κ} {o left : Outstanding} {d : DraftBlock}, P w → Q o →
      w.draft.pack o = some (d, left) → P { w with draft := d } ∧ Q left)
    (hflush : ∀ {w v : VolumeWriter κ} {x : Except Failure Unit}, P w → w.Flushes v x → P v)
    (hw : P w) {o : Outstanding} (ho : Q o) : P (w.store o).1 := by
  fun_induction store w o with
  | case1 w o d left packed w' => exact (hpack hw ho packed).1
  | case2 w o d left packed w' done v e =>
    rename_i flushed
    exact hflush (hpack hw ho packed).1 (flush_eq_iff.mp flushed)
  | case3 w o d left packed w' done v flushed =>
    rename_i ih
    obtain ⟨hpacked, hleft⟩ := hpack hw ho packed
    exact ih (hflush hpacked (flush_eq_iff.mp flushed)) hleft
  | case4 w o packed empty => exact hw
  | case5 w o packed empty v e flushed => exact hflush hw (flush_eq_iff.mp flushed)
  | case6 w o packed empty v flushed ih => exact ih (hflush hw (flush_eq_iff.mp flushed)) ho

/-- What packing and flushing keep is kept by all steps. `Q r` is what is known of the parts of the
record `r`. -/
theorem proceedAll_induction {Q : Record → Outstanding → Prop}
    (hpack : ∀ {w : VolumeWriter κ} {r : Record} {o left : Outstanding} {d : DraftBlock}, P w →
      Q r o → w.draft.pack o = some (d, left) → P { w with draft := d } ∧ Q r left)
    (hflush : ∀ {w v : VolumeWriter κ} {x : Except Failure Unit}, P w → w.Flushes v x → P v)
    (hw : P w) {steps : List WriterStep} (hq : ∀ r ∈ WriterStep.records steps, Q r (.whole r)) :
    P (w.proceedAll steps) := by
  induction steps generalizing w with
  | nil => exact hw
  | cons step steps ih =>
    cases step with
    | record r =>
      have hstored : P (w.writeRecord r).1 := store_induction hpack hflush hw (hq r (by simp))
      exact ih hstored fun x hx => hq x (by simp [hx])
    | flush => exact ih (hflush hw w.flushes) fun x hx => hq x (by simpa using hx)

end Induction

section Map
variable {ρ : Type} [BlockSink ρ] (m : BlockSink.Hom κ ρ) (w : VolumeWriter κ)

def map (w : VolumeWriter κ) : VolumeWriter ρ := { w with sink := m.state w.sink }

theorem map_flush : (w.map m).flush = (w.flush.1.map m, w.flush.2) := by
  have hwrite (raw : Bytes) := m.write w.sink raw
  have hflushes := w.flushes
  generalize w.flush.1 = v at *
  generalize w.flush.2 = x at *
  refine Flushes.flush_eq ?_
  cases hflushes with
  | empty he => exact .empty he
  | unsealed he hblock => exact .unsealed he hblock
  | @refused raw sink fault he hblock hrefuse =>
    have hmapped : BlockSink.write (w.map m).sink raw = (m.state sink, .error fault) := by
      rw [map, hwrite, hrefuse]
    have h := Flushes.refused (w := w.map m) he hblock hmapped
    rwa [m.name] at h
  | @taken raw sink he hblock haccept =>
    have hmapped : BlockSink.write (w.map m).sink raw = (m.state sink, .ok ()) := by
      rw [map, hwrite, haccept]
    exact .taken (w := w.map m) he hblock hmapped

theorem map_store (o : Outstanding) :
    (w.map m).store o = ((w.store o).1.map m, (w.store o).2) := by
  fun_induction store w o with
  | case1 w o d left packed w' =>
    rename_i done
    exact store_complete packed done
  | case2 w o d left packed w' done v e =>
    rename_i flushed
    have hflush := w'.map_flush m
    rw [flushed] at hflush
    exact store_partly (w := w.map m) packed done hflush
  | case3 w o d left packed w' done v flushed =>
    rename_i ih
    have hflush := w'.map_flush m
    rw [flushed] at hflush
    exact (store_partly (w := w.map m) packed done hflush).trans ih
  | case4 w o packed empty => exact store_empty packed empty
  | case5 w o packed empty v e flushed =>
    have hflush := w.map_flush m
    rw [flushed] at hflush
    exact store_behind (w := w.map m) packed empty hflush
  | case6 w o packed empty v flushed ih =>
    have hflush := w.map_flush m
    rw [flushed] at hflush
    exact (store_behind (w := w.map m) packed empty hflush).trans ih

/-- In front of sinks that do the same, writers do the same. -/
theorem map_proceedAll (steps : List WriterStep) :
    (w.map m).proceedAll steps = (w.proceedAll steps).map m := by
  induction steps generalizing w with
  | nil => rfl
  | cons step steps ih =>
    have hstep : (w.map m).proceed step = (w.proceed step).map m := by
      cases step with
      | record r => exact congrArg Prod.fst (w.map_store m (.whole r))
      | flush => exact congrArg Prod.fst (w.map_flush m)
    rw [proceedAll, List.foldl_cons, hstep]
    exact ih (w.proceed step)

end Map

section Recorded
variable (w : VolumeWriter (Recorder κ))

theorem unrecorded_flush : w.unrecorded.flush = (w.flush.1.unrecorded, w.flush.2) :=
  w.map_flush Recorder.unrecorded

theorem unrecorded_store (o : Outstanding) :
    w.unrecorded.store o = ((w.store o).1.unrecorded, (w.store o).2) :=
  w.map_store Recorder.unrecorded o

theorem unrecorded_proceedAll (steps : List WriterStep) :
    w.unrecorded.proceedAll steps = (w.proceedAll steps).unrecorded :=
  w.map_proceedAll Recorder.unrecorded steps

end Recorded

end VolumeWriter
end BackupVolume
