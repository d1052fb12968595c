import BackupVolume.Proofs.Volume.Recording

/-! # How writers fail

A writer fails where a block can neither be sealed nor be handed over, or where not even the smallest
piece fits into an empty block. The last does not happen to writers that were created, whatever the
size of their blocks, and one that was created for a sink that takes everything fails at nothing but
sealing.
-/
namespace BackupVolume

inductive Failure.IsOfWriting : Failure → Prop
  | unsealed : IsOfWriting (.crypto .encryptionFailed)
  | refused (path : String) (fault : IoFault) : IsOfWriting (.write path fault)

theorem Failure.IsOfWriting.scope {e : Failure} (h : e.IsOfWriting) :
    e.scope = .job ∨ e = .crypto .encryptionFailed := by
  cases h with
  | unsealed => exact .inr rfl
  | refused => exact .inl rfl

namespace VolumeWriter
variable {κ : Type} [BlockSink κ] {w v : VolumeWriter κ} {e : Failure}

theorem error_of_flush (h : w.Flushes v (.error e)) : e.IsOfWriting := by
  cases h with
  | unsealed _ hblock =>
    obtain ⟨rfl, -⟩ := block_error_iff.mp hblock
    exact .unsealed
  | refused => exact .refused ..

theorem error_of_store {o left : Outstanding} (h : w.store o = (v, left, .error e)) :
    e.IsOfWriting ∨ ∃ problem, e = .config problem := by
  fun_induction store w o with
  | case1 => simp at h
  | case2 w o d l packed w' done u x flushed =>
    cases h
    exact .inl (error_of_flush (flush_eq_iff.mp flushed))
  | case3 w o d l packed w' done u flushed ih => exact ih h
  | case4 w o packed empty =>
    cases h
    exact .inr ⟨_, rfl⟩
  | case5 w o packed empty u x flushed =>
    cases h
    exact .inl (error_of_flush (flush_eq_iff.mp flushed))
  | case6 w o packed empty u flushed ih => exact ih h

structure Unhindered (sink : κ) (w : VolumeWriter κ) : Prop where
  taken : ∃ blocks, w.sink = (BlockSink.writeAll sink blocks).1
  layout : w.draft.layout = .bb03
  room : HeaderLayout.bb03.recordHeaderLength < w.draft.capacity

namespace Unhindered
variable {sink : κ}

theorem pack (h : Unhindered sink w) {o left : Outstanding} {d : DraftBlock}
    (hp : w.draft.pack o = some (d, left)) : Unhindered sink { w with draft := d } := by
  obtain ⟨-, -, i, j, rfl⟩ := DraftBlock.exists_of_pack hp
  exact ⟨h.taken, h.layout, h.room⟩

theorem flush (hs : BlockSink.AcceptsAll sink) (h : Unhindered sink w) {x : Except Failure Unit}
    (hf : w.Flushes v x) :
    (x = .ok () ∧ Unhindered sink v) ∨ x = .error (.crypto .encryptionFailed) := by
  cases hf with
  | empty => exact .inl ⟨rfl, h⟩
  | unsealed _ hblock =>
    obtain ⟨rfl, -⟩ := block_error_iff.mp hblock
    exact .inr rfl
  | @refused raw _ _ _ _ hrefused =>
    obtain ⟨blocks, hsink⟩ := h.taken
    have hwrite := hs.write blocks raw
    rw [← hsink, hrefused] at hwrite
    cases hwrite
  | @taken raw _ _ _ htaken =>
    obtain ⟨blocks, hsink⟩ := h.taken
    have hwrite := hs.write blocks raw
    rw [← hsink, htaken] at hwrite
    exact .inl ⟨rfl, ⟨_, congrArg Prod.fst hwrite⟩, h.layout, h.room⟩

theorem store (hs : BlockSink.AcceptsAll sink) (h : Unhindered sink w) (o : Outstanding) :
    (∃ v left, w.store o = (v, left, .ok ()) ∧ Unhindered sink v) ∨
      ∃ v left, w.store o = (v, left, .error (.crypto .encryptionFailed)) := by
  fun_induction VolumeWriter.store w o with
  | case1 w o d left packed w' done => exact .inl ⟨_, _, rfl, h.pack packed⟩
  | case2 w o d left packed w' done v e flushed =>
    rcases (h.pack packed).flush hs (flush_eq_iff.mp flushed) with ⟨hok, -⟩ | hunsealed
    · cases hok
    · cases hunsealed
      exact .inr ⟨_, _, rfl⟩
  | case3 w o d left packed w' done v flushed ih =>
    rcases (h.pack packed).flush hs (flush_eq_iff.mp flushed) with ⟨-, hnext⟩ | hunsealed
    · exact ih hnext
    · cases hunsealed
  | case4 w o packed empty =>
    exact absurd packed
      (DraftBlock.exists_pack_of_isEmpty empty (by rw [h.layout]; exact h.room) o)
  | case5 w o packed empty v e flushed =>
    rcases h.flush hs (flush_eq_iff.mp flushed) with ⟨hok, -⟩ | hunsealed
    · cases hok
    · cases hunsealed
      exact .inr ⟨_, _, rfl⟩
  | case6 w o packed empty v flushed ih =>
    rcases h.flush hs (flush_eq_iff.mp flushed) with ⟨-, hnext⟩ | hunsealed
    · exact ih hnext
    · cases hunsealed

end Unhindered

theorem unhindered_create (sink : κ) (blockSize : Nat) (session : Session) (checksums : Bool)
    (key : Option VolumeKey) (nonce : Nonce) :
    Unhindered sink (create sink blockSize session checksums key nonce) :=
  ⟨⟨[], rfl⟩, rfl, Nat.lt_of_lt_of_le (Nat.lt_succ_self _) (Nat.le_max_right _ _)⟩

/-- The smallest piece fits into an empty block, and what has been packed into a block fits too. The
blocks have this capacity, and are sealed with this key. -/
structure HasRoom (key : Option VolumeKey) (capacity : Nat) (w : VolumeWriter κ) : Prop where
  keyed : w.key = key
  planned : w.draft.capacity = capacity
  room : w.draft.layout.recordHeaderLength < capacity
  used : w.draft.used ≤ capacity

omit [BlockSink κ] in
theorem hasRoom_create (sink : κ) (blockSize : Nat) (session : Session) (checksums : Bool)
    (key : Option VolumeKey) (nonce : Nonce) :
    let w := create sink blockSize session checksums key nonce
    HasRoom key w.draft.capacity w :=
  ⟨rfl, rfl, Nat.lt_of_lt_of_le (Nat.lt_succ_self _) (Nat.le_max_right _ _), Nat.zero_le _⟩

namespace HasRoom
variable {key : Option VolumeKey} {capacity : Nat}

omit [BlockSink κ] in
theorem pack (h : HasRoom key capacity w) {o left : Outstanding} {d : DraftBlock}
    (hp : w.draft.pack o = some (d, left)) : HasRoom key capacity { w with draft := d } := by
  have hused := DraftBlock.used_le_of_pack (by rw [h.planned]; exact h.used) hp
  obtain ⟨-, -, i, j, rfl⟩ := DraftBlock.exists_of_pack hp
  rw [h.planned] at hused
  exact ⟨h.keyed, h.planned, h.room, hused⟩

theorem flush {x : Except Failure Unit} (h : HasRoom key capacity w) (hf : w.Flushes v x) :
    HasRoom key capacity v := by
  cases hf with
  | empty => exact h
  | unsealed => exact h
  | refused => exact ⟨h.keyed, h.planned, h.room, h.used⟩
  | taken => exact ⟨h.keyed, h.planned, h.room, Nat.zero_le _⟩

theorem proceedAll (h : HasRoom key capacity w) (steps : List WriterStep) :
    HasRoom key capacity (w.proceedAll steps) :=
  proceedAll_induction (Q := fun _ _ => True) (fun h _ hp => ⟨h.pack hp, trivial⟩) flush h
    fun _ _ => trivial

/-- Sealing fails only where blocks may get too long for it. -/
theorem unsealed (h : HasRoom key capacity w) (hf : w.Flushes v (.error e)) :
    (e = .crypto .encryptionFailed ∧ key.isSome = true ∧ Cipher.Gcm.maxLength < capacity) ∨
      ∃ path fault, e = .write path fault := by
  cases hf with
  | unsealed _ hblock =>
    obtain ⟨rfl, hkey, -, hlong⟩ := block_error_iff.mp hblock
    exact .inl ⟨rfl, h.keyed ▸ hkey, Nat.lt_of_lt_of_le hlong h.used⟩
  | refused => exact .inr ⟨_, _, rfl⟩

/-- Either all of a record is stored, or a block could not be sealed or was refused by the sink. -/
theorem store_ends (h : HasRoom key capacity w) (o : Outstanding) :
    (∃ v left, w.store o = (v, left, .ok ()) ∧ left.isComplete = true) ∨
      ∃ v left e, w.store o = (v, left, .error e) ∧
        ((e = .crypto .encryptionFailed ∧ key.isSome = true ∧ Cipher.Gcm.maxLength < capacity) ∨
          ∃ path fault, e = .write path fault) := by
  fun_induction VolumeWriter.store w o with
  | case1 w o d left packed w' done => exact .inl ⟨_, _, rfl, done⟩
  | case2 w o d left packed w' done v e flushed =>
    exact .inr ⟨_, _, _, rfl, (h.pack packed).unsealed (flush_eq_iff.mp flushed)⟩
  | case3 w o d left packed w' done v flushed ih =>
    exact ih ((h.pack packed).flush (flush_eq_iff.mp flushed))
  | case4 w o packed empty =>
    have hroom : w.draft.layout.recordHeaderLength < w.draft.capacity := by
      rw [h.planned]
      exact h.room
    exact absurd packed (DraftBlock.exists_pack_of_isEmpty empty hroom o)
  | case5 w o packed empty v e flushed =>
    exact .inr ⟨_, _, _, rfl, h.unsealed (flush_eq_iff.mp flushed)⟩
  | case6 w o packed empty v flushed ih => exact ih (h.flush (flush_eq_iff.mp flushed))

end HasRoom

/-- No block that these records fill fails at sealing. -/
def SealsAll (w : VolumeWriter κ) (rs : List Record) : Prop :=
  ∀ e, (w.perform (rs.map .record)).2 ≠ .error (.crypto e)

theorem SealsAll.of_append {xs ys : List Record} (h : w.SealsAll (xs ++ ys)) : w.SealsAll xs := by
  intro e hfails
  refine h e ?_
  rw [List.map_append, perform_append_of_error (Prod.ext rfl hfails)]

/-- Where blocks cannot get too long for it, sealing does not fail. -/
theorem HasRoom.sealsAll {key : Option VolumeKey} {capacity : Nat} (h : HasRoom key capacity w)
    (hk : key = none ∨ capacity ≤ Cipher.Gcm.maxLength) (rs : List Record) : w.SealsAll rs := by
  intro e hfails
  induction rs generalizing w with
  | nil => cases hfails
  | cons r rs ih =>
    rw [List.map_cons, perform] at hfails
    have hstored : HasRoom key capacity (w.writeRecord r).1 := h.proceedAll [.record r]
    rcases h.store_ends (.whole r) with ⟨v, left, hv, -⟩ | ⟨v, left, x, hv, hx⟩
    all_goals rw [writeRecord, hv] at hfails hstored
    · exact ih hstored hfails
    · cases hfails
      rcases hx with ⟨-, hsome, hlong⟩ | ⟨path, fault, hwrite⟩
      · rcases hk with rfl | hshort
        · cases hsome
        · omega
      · cases hwrite

end VolumeWriter
end BackupVolume
