import BackupVolume.Proofs.Device.Traffic
import BackupVolume.Proofs.Volume.Sealing

/-! # What a writer lays down

Every piece of a record lies in one of the blocks of the volume. What a writer has handed to its
sink, together with the block it is filling, holds the pieces of all records in their order, and
each block that was handed over is read back as the pieces that lie in it.
-/
namespace BackupVolume

/-- The octets of a block show these pieces to everyone who can read it. -/
structure Shows (key : Option VolumeKey) (n : Nat) (bytes : Bytes) (ps : List Piece) : Prop where
  filled : ps ≠ []
  load (verify : Bool) (address : Nat) : ∃ b, LoadedBlock.load verify key ⟨address, bytes⟩ = .ok b ∧
    (∀ a : Assembler, a.unpackAll b = a.receiveAll n.toUInt32 ps) ∧
    (LoadedBlock.load verify none ⟨address, bytes⟩ = .ok b ∨
      LoadedBlock.load verify none ⟨address, bytes⟩ = .error (.crypto .missingKey))

inductive ShowAll (key : Option VolumeKey) : Nat → List Bytes → List Placed → Prop
  | nil (n : Nat) : ShowAll key n [] []
  | block {n : Nat} {b : Bytes} {bs : List Bytes} {ps : List Piece} {qs : List Placed} :
    Shows key n b ps → ShowAll key (n + 1) bs qs → ShowAll key n (b :: bs) (ps.map (.mk n) ++ qs)

theorem ShowAll.snoc {key : Option VolumeKey} {n : Nat} {bs : List Bytes} {qs : List Placed}
    (h : ShowAll key n bs qs) {b : Bytes} {ps : List Piece} (hb : Shows key (n + bs.length) b ps) :
    ShowAll key n (bs ++ [b]) (qs ++ ps.map (.mk (n + bs.length))) := by
  induction h with
  | nil n => simpa using ShowAll.block hb (.nil (n + 1))
  | @block n c bs ps' qs hc _ ih =>
    rw [List.append_assoc]
    refine .block hc ?_
    have hn : n + (c :: bs).length = n + 1 + bs.length := by simp only [List.length_cons]; omega
    rw [hn] at hb ⊢
    exact ih hb

namespace VolumeWriter
variable {κ : Type}

theorem IsSound.pack {w : VolumeWriter κ} (h : w.IsSound) {o left : Outstanding} {d : DraftBlock}
    (hp : w.draft.pack o = some (d, left)) : IsSound { w with draft := d } := by
  have hused := DraftBlock.used_le_of_pack h.used hp
  obtain ⟨-, -, i, j, rfl⟩ := DraftBlock.exists_of_pack hp
  exact ⟨h.layout, h.options, h.room, h.bound, hused⟩

variable [BlockSink κ]

theorem IsSound.flush {w v : VolumeWriter κ} {x : Except Failure Unit} (h : w.IsSound)
    (hf : w.Flushes v x) : v.IsSound := by
  cases hf with
  | empty => exact h
  | unsealed => exact h
  | refused => exact ⟨h.layout, h.options, h.room, h.bound, h.used⟩
  | taken => exact ⟨h.layout, h.options, h.room, h.bound, Nat.zero_le _⟩

def placed (w : VolumeWriter κ) (o : Outstanding) : List Placed :=
  match _packed : w.draft.pack o with
  | some (draft, left) =>
    let q : Placed := ⟨w.blocksWritten, w.draft.nextPiece o⟩
    match _done : left.isComplete with
    | true => [q]
    | false =>
      match flush { w with draft } with
      | (_, .error _) => [q]
      | (w, .ok ()) => q :: placed w left
  | none =>
    match _empty : w.draft.isEmpty with
    | true => []
    | false =>
      match _flushed : w.flush with
      | (_, .error _) => []
      | (w, .ok ()) => placed w o
termination_by (o.rest.length, if w.draft.isEmpty then 0 else 1)
decreasing_by
  · exact Prod.Lex.left _ _ (DraftBlock.rest_lt_of_pack _packed _done)
  · apply Prod.Lex.right
    simp [_empty, isEmpty_of_flush _flushed]

section Placed
variable {w v : VolumeWriter κ} {o left : Outstanding} {d : DraftBlock}

theorem placed_last (hp : w.draft.pack o = some (d, left)) (hc : left.isComplete = true) :
    w.placed o = [⟨w.blocksWritten, w.draft.nextPiece o⟩] := by
  rw [placed]
  split <;> rename_i packed <;> rw [hp] at packed <;> cases packed
  simp only
  split <;> rename_i done <;> rw [hc] at done
  cases done

theorem placed_split (hp : w.draft.pack o = some (d, left)) (hc : left.isComplete = false)
    (hf : ({ w with draft := d } : VolumeWriter κ).flush = (v, .ok ())) :
    w.placed o = ⟨w.blocksWritten, w.draft.nextPiece o⟩ :: v.placed left := by
  rw [placed]
  split <;> rename_i packed <;> rw [hp] at packed <;> cases packed
  simp only
  split <;> rename_i done <;> rw [hc] at done <;> cases done
  simp only [hf]

theorem placed_behind (hp : w.draft.pack o = none) (he : w.draft.isEmpty = false)
    (hf : w.flush = (v, .ok ())) : w.placed o = v.placed o := by
  rw [placed]
  split <;> rename_i packed <;> rw [hp] at packed <;> cases packed
  split <;> rename_i empty <;> rw [he] at empty <;> cases empty
  split <;> rename_i flushed <;> rw [hf] at flushed <;> cases flushed
  rfl

end Placed

/-- What a writer has handed to its sink, and what lies in the block it is filling. Only a full
block may end in a piece that is not the last one of its record. -/
structure Wrote (sink : κ) (key : Option VolumeKey) (session : Session) (w : VolumeWriter κ)
    (blocks : List Bytes) (laid : List Placed) (filled : List Piece) : Prop where
  sound : w.IsSound
  sealedBy : w.key = key
  inSession : w.draft.session = session
  handed : w.sink = (BlockSink.writeAll sink blocks).1
  shown : ShowAll key 0 blocks laid
  written : w.blocksWritten = blocks.length
  number : w.draft.number = blocks.length.toUInt32
  payload : w.draft.payload = filled.flatMap (Piece.toBytes .bb03)
  ofSession : ∀ p ∈ filled, p.head.session = session
  outstanding : ∀ p ∈ filled, p.data.length ≤ p.head.outstanding.toNat
  closed : (∀ p ∈ filled, p.IsLast) ∨ w.draft.free = 0 ∧ ∀ p ∈ filled.dropLast, p.IsLast

namespace Wrote
variable {sink : κ} {key : Option VolumeKey} {session : Session} {w : VolumeWriter κ}
  {blocks : List Bytes} {laid : List Placed} {filled : List Piece}

theorem isEmpty_iff (h : Wrote sink key session w blocks laid filled) :
    w.draft.isEmpty = true ↔ filled = [] := by
  have hp := h.payload
  have hpayload : w.draft.isEmpty = true ↔ w.draft.payload = [] := by
    simp [DraftBlock.isEmpty, DraftBlock.payload]
  rw [hpayload, hp, List.flatMap_eq_nil_iff]
  constructor
  · intro hnil
    cases filled with
    | nil => rfl
    | cons p ps =>
      have hlen := congrArg List.length (hnil p (by simp))
      rw [Piece.length_toBytes] at hlen
      simp [HeaderLayout.recordHeaderLength] at hlen
  · rintro rfl p hp
    simp at hp

theorem contains (h : Wrote sink key session w blocks laid filled) : w.draft.Contains filled where
  payload := by
    rw [h.sound.layout]
    exact h.payload
  used := h.sound.used
  ofSession := by
    rw [h.inSession]
    exact h.ofSession
  outstanding := h.outstanding
  closed := h.closed

theorem shows (h : Wrote sink key session w blocks laid filled) (hf : filled ≠ []) {raw : Bytes}
    (hraw : w.block = .ok raw) : Shows key blocks.length raw filled := by
  refine ⟨hf, fun verify address => ?_⟩
  obtain ⟨b, hb, hlayout, hsession, hnumber, hrest, hnone⟩ := load_block h.sound hraw verify address
  rw [h.sealedBy] at hb
  refine ⟨b, hb, fun a => ?_, hnone⟩
  rw [← h.number, ← hnumber]
  exact h.contains.unpackAll (hlayout.trans h.sound.layout.symm) (.inr hsession) hrest a

theorem flush (hs : BlockSink.AcceptsAll sink) (h : Wrote sink key session w blocks laid filled) :
    ∃ v blocks' laid', w.flush = (v, .ok ()) ∧ Wrote sink key session v blocks' laid' [] ∧
      laid' = laid ++ filled.map (.mk blocks.length) := by
  by_cases he : w.draft.isEmpty = true
  · have hf := h.isEmpty_iff.mp he
    subst hf
    exact ⟨w, blocks, laid, (Flushes.empty he).flush_eq, h, by simp⟩
  · have hf : filled ≠ [] := fun hf => he (h.isEmpty_iff.mpr hf)
    obtain ⟨raw, hraw⟩ := h.sound.block_ok
    have hwrite := hs.write blocks raw
    rw [← h.handed] at hwrite
    have htaken := Flushes.taken (Bool.eq_false_iff.mpr he) hraw hwrite
    refine ⟨_, blocks ++ [raw], _, htaken.flush_eq, ?_, rfl⟩
    refine ⟨h.sound.flush htaken, h.sealedBy, h.inSession, rfl, ?_, ?_, ?_, rfl, by simp, by simp,
      .inl (by simp)⟩
    · have hshows : Shows key (0 + blocks.length) raw filled := by
        rw [Nat.zero_add]
        exact h.shows hf hraw
      have hsnoc := h.shown.snoc hshows
      rw [Nat.zero_add] at hsnoc
      exact hsnoc
    · simp [h.written]
    · simp only [DraftBlock.reset, h.number, List.length_append, List.length_singleton]
      simp [Nat.toUInt32]

theorem pack (h : Wrote sink key session w blocks laid filled) {o left : Outstanding}
    {d : DraftBlock} (hl : o.rest.length < 2 ^ 32) (hp : w.draft.pack o = some (d, left)) :
    Wrote sink key session { w with draft := d } blocks laid (filled ++ [w.draft.nextPiece o]) := by
  have hsound := h.sound.pack hp
  obtain ⟨hpayload, -, hsession, houtstanding, hclosed⟩ := h.contains.pack hl hp
  obtain ⟨-, -, i, j, rfl⟩ := DraftBlock.exists_of_pack hp
  have hinSession : w.draft.session = session := h.inSession
  refine ⟨hsound, h.sealedBy, hinSession, h.handed, h.shown, h.written, h.number, ?_, ?_,
    houtstanding, hclosed⟩
  · rw [← hsound.layout]
    exact hpayload
  · rw [← hinSession]
    exact hsession

end Wrote

def Holds (sink : κ) (key : Option VolumeKey) (session : Session) (w : VolumeWriter κ)
    (qs : List Placed) : Prop :=
  ∃ blocks laid filled, Wrote sink key session w blocks laid filled ∧
    laid ++ filled.map (.mk blocks.length) = qs

namespace Holds
variable {sink : κ} {key : Option VolumeKey} {session : Session} {w : VolumeWriter κ}
  {qs : List Placed}

theorem flush (hs : BlockSink.AcceptsAll sink) (h : Holds sink key session w qs) :
    ∃ v, w.flush = (v, .ok ()) ∧ Holds sink key session v qs := by
  obtain ⟨blocks, laid, filled, hw, rfl⟩ := h
  obtain ⟨v, blocks', laid', hv, hw', rfl⟩ := hw.flush hs
  exact ⟨v, hv, blocks', _, [], hw', by rw [List.map_nil, List.append_nil]⟩

theorem pack (h : Holds sink key session w qs) {o left : Outstanding} {d : DraftBlock}
    (hl : o.rest.length < 2 ^ 32) (hp : w.draft.pack o = some (d, left)) :
    Holds sink key session { w with draft := d }
      (qs ++ [⟨w.blocksWritten, w.draft.nextPiece o⟩]) := by
  obtain ⟨blocks, laid, filled, hw, rfl⟩ := h
  refine ⟨blocks, laid, _, hw.pack hl hp, ?_⟩
  rw [List.map_append, List.map_singleton, hw.written, List.append_assoc]

theorem pack_ne_none (h : Holds sink key session w qs) (he : w.draft.isEmpty = true)
    (o : Outstanding) : w.draft.pack o ≠ none := by
  obtain ⟨blocks, laid, filled, hw, rfl⟩ := h
  exact DraftBlock.exists_pack_of_isEmpty he (by rw [hw.sound.layout]; exact hw.sound.room) o

theorem inSession (h : Holds sink key session w qs) : w.draft.session = session := by
  obtain ⟨blocks, laid, filled, hw, rfl⟩ := h
  exact hw.inSession

/-- Storing lays down the pieces of a record behind all that was there. -/
theorem store (hs : BlockSink.AcceptsAll sink) (h : Holds sink key session w qs)
    {o : Outstanding} (hl : o.rest.length < 2 ^ 32) :
    ∃ v left, w.store o = (v, left, .ok ()) ∧ Holds sink key session v (qs ++ w.placed o) ∧
      o.Cut session (w.placed o) := by
  fun_induction VolumeWriter.store w o generalizing qs with
  | case1 w o d left packed w' =>
    rename_i done
    have hpacked := h.pack hl packed
    have hplaced := placed_last packed done
    have hcut := DraftBlock.cut_of_complete packed w.blocksWritten done
    rw [h.inSession] at hcut
    rw [← hplaced] at hpacked hcut
    exact ⟨_, _, rfl, hpacked, hcut⟩
  | case2 w o d left packed w' done v e =>
    rename_i flushed
    obtain ⟨u, hu, -⟩ := (h.pack hl packed).flush hs
    rw [flushed] at hu
    cases hu
  | case3 w o d left packed w' done v flushed =>
    rename_i ih
    obtain ⟨u, hu, hheld⟩ := (h.pack hl packed).flush hs
    rw [flushed] at hu
    cases hu
    have hplaced := placed_split packed done flushed
    have hless := Nat.lt_of_le_of_lt (DraftBlock.length_left_of_pack packed) hl
    obtain ⟨t, left, ht, hholds, hcut⟩ := ih hheld hless
    rw [← h.inSession] at hcut
    have hwhole := DraftBlock.cut_of_unfinished packed w.blocksWritten done hcut
    rw [h.inSession, ← hplaced] at hwhole
    rw [List.append_assoc, List.singleton_append, ← hplaced] at hholds
    exact ⟨t, left, ht, hholds, hwhole⟩
  | case4 w o packed empty => exact absurd packed (h.pack_ne_none empty o)
  | case5 w o packed empty v e flushed =>
    obtain ⟨u, hu, -⟩ := h.flush hs
    rw [flushed] at hu
    cases hu
  | case6 w o packed empty v flushed ih =>
    obtain ⟨u, hu, hheld⟩ := h.flush hs
    rw [flushed] at hu
    cases hu
    obtain ⟨t, left, ht, hholds, hcut⟩ := ih hheld hl
    rw [placed_behind packed empty flushed]
    exact ⟨t, left, ht, hholds, hcut⟩

end Holds

end VolumeWriter
end BackupVolume
