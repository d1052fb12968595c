import BackupVolume.Block.Draft
import BackupVolume.Proofs.Block.Format
import BackupVolume.Proofs.Record.Cutting

/-! # Packed blocks

Packing appends a piece of a record to a block, as long as there is room for it. A block that was
packed is stored in its layout, and what is read back yields the pieces that lie in it.
-/
namespace BackupVolume

theorem LoadedBlock.decode_encode {h : BlockHeader} {payload : Bytes} (verify : Bool)
    (address : Nat)
    (ho : h.layout.alwaysChecksummed = true ∨ BlockOptions.ofBits? h.options.bits = some h.options)
    (hl : (h.encode payload).1.headerLength + payload.length ≤ maxBlockLength) :
    decode verify address (h.encode payload).2 = .ok ⟨(h.encode payload).1, address, payload⟩ := by
  have hd := BlockHeader.decode_encode verify [] ho hl
  rw [List.append_nil] at hd
  simp only [decode, hd, bind, Except.bind]
  rfl

namespace DraftBlock

def room (d : DraftBlock) : Nat := d.free - d.layout.recordHeaderLength

def nextPiece (d : DraftBlock) (o : Outstanding) : Piece := ⟨o.header d.session, o.rest.take d.room⟩

theorem exists_of_pack {d d' : DraftBlock} {o left : Outstanding}
    (h : d.pack o = some (d', left)) :
    d.needed o ≤ d.free ∧ left = o.after d.room ∧ ∃ i j, d' = { d with
      area := d.area ++ (d.nextPiece o).toBytes d.layout, firstIndex := i, lastIndex := j } := by
  rw [pack] at h
  split at h
  · cases h
  · next hroom =>
    simp only [Option.some.injEq, Prod.mk.injEq] at h
    obtain ⟨hd, hleft⟩ := h
    refine ⟨Nat.le_of_not_lt hroom, hleft.symm, ?_⟩
    rw [noteIndex] at hd
    split at hd
    · exact ⟨_, _, hd.symm⟩
    · exact ⟨_, _, hd.symm⟩

theorem payload_of_pack {d d' : DraftBlock} {o left : Outstanding}
    (h : d.pack o = some (d', left)) :
    d'.payload = d.payload ++ (d.nextPiece o).toBytes d.layout := by
  obtain ⟨-, -, i, j, rfl⟩ := exists_of_pack h
  simp [payload]

theorem length_data_nextPiece (d : DraftBlock) (o : Outstanding) :
    (d.nextPiece o).data.length = min d.room o.rest.length := List.length_take

/-- A piece fills the room that there is, as far as the record goes. -/
theorem used_of_pack {d d' : DraftBlock} {o left : Outstanding}
    (h : d.pack o = some (d', left)) :
    d.layout.recordHeaderLength ≤ d.free ∧
      d'.used = d.used + d.layout.recordHeaderLength + min d.room o.rest.length := by
  obtain ⟨hneeded, -⟩ := exists_of_pack h
  have hpayload := congrArg List.length (payload_of_pack h)
  rw [List.length_append, Piece.length_toBytes, length_data_nextPiece] at hpayload
  rw [needed] at hneeded
  simp only [payload, Array.length_toList] at hpayload
  constructor
  · omega
  · rw [used, used, hpayload, Nat.add_assoc]

theorem used_le_of_pack {d d' : DraftBlock} {o left : Outstanding} (hd : d.used ≤ d.capacity)
    (h : d.pack o = some (d', left)) : d'.used ≤ d'.capacity := by
  obtain ⟨hheader, hused⟩ := used_of_pack h
  obtain ⟨-, -, i, j, hd'⟩ := exists_of_pack h
  have hcapacity : d'.capacity = d.capacity := by rw [hd']
  rw [room, free] at hused
  rw [free] at hheader
  omega

theorem pack_eq_none_iff {d : DraftBlock} {o : Outstanding} :
    d.pack o = none ↔ d.free < d.needed o := by
  rw [pack]
  constructor
  · intro h
    split at h
    · assumption
    · cases h
  · intro h
    exact if_pos h

theorem exists_pack_of_isEmpty {d : DraftBlock} (hd : d.isEmpty = true)
    (hc : d.layout.recordHeaderLength < d.capacity) (o : Outstanding) : d.pack o ≠ none := by
  have hused : d.used = 0 := by
    rw [used, Array.size_eq_zero_iff]
    simpa [isEmpty] using hd
  have hneeded : d.needed o ≤ d.layout.recordHeaderLength + 1 := by
    rw [needed]
    split <;> omega
  intro hnone
  have hfull := pack_eq_none_iff.mp hnone
  rw [free, hused] at hfull
  omega

section Cut
variable {d d' : DraftBlock} {o left : Outstanding} (h : d.pack o = some (d', left)) (n : Nat)
include h

theorem length_left_of_pack : left.rest.length ≤ o.rest.length := by
  obtain ⟨-, rfl, -⟩ := exists_of_pack h
  rw [o.length_rest_after]
  omega

/-- A piece behind which nothing is left is the last one. -/
theorem cut_of_complete (hc : left.isComplete = true) :
    o.Cut d.session [⟨n, d.nextPiece o⟩] := by
  obtain ⟨-, rfl, -⟩ := exists_of_pack h
  have hfits : o.rest.length ≤ d.room := by
    simpa [Outstanding.isComplete, Outstanding.after] using hc
  rw [nextPiece, List.take_of_length_le hfits]
  exact .last o n

theorem cut_of_unfinished (hc : left.isComplete = false) {qs : List Placed}
    (hq : left.Cut d.session qs) : o.Cut d.session (⟨n, d.nextPiece o⟩ :: qs) := by
  obtain ⟨-, rfl, -⟩ := exists_of_pack h
  have hlong : d.room < o.rest.length := by
    simpa [Outstanding.isComplete, Outstanding.after] using hc
  exact .split n hlong hq

end Cut

/-- The record area consists of these pieces. Only a full block may end in a piece that is not the
last one of its record. -/
structure Contains (d : DraftBlock) (ps : List Piece) : Prop where
  payload : d.payload = ps.flatMap (Piece.toBytes d.layout)
  used : d.used ≤ d.capacity
  ofSession : ∀ p ∈ ps, p.head.session = d.session
  outstanding : ∀ p ∈ ps, p.data.length ≤ p.head.outstanding.toNat
  closed : (∀ p ∈ ps, p.IsLast) ∨ d.free = 0 ∧ ∀ p ∈ ps.dropLast, p.IsLast

theorem contains_nil {d : DraftBlock} (h : d.isEmpty = true) : d.Contains [] := by
  have harea : d.area = #[] := by simpa [isEmpty] using h
  have hused : d.used = 0 := by rw [used, harea, Array.size_empty]
  refine ⟨?_, by omega, by simp, by simp, .inl (by simp)⟩
  rw [payload, harea]
  rfl

namespace Contains
variable {d d' : DraftBlock} {ps : List Piece}

theorem pack (h : d.Contains ps) {o left : Outstanding} (hl : o.rest.length < 2 ^ 32)
    (hp : d.pack o = some (d', left)) : d'.Contains (ps ++ [d.nextPiece o]) := by
  have hpayload := payload_of_pack hp
  obtain ⟨hheader, hused⟩ := used_of_pack hp
  obtain ⟨-, -, i, j, hd⟩ := exists_of_pack hp
  have hlayout : d'.layout = d.layout := by rw [hd]
  have hsession : d'.session = d.session := by rw [hd]
  have hcapacity : d'.capacity = d.capacity := by rw [hd]
  have hlen : (d.nextPiece o).head.outstanding.toNat = o.rest.length :=
    o.toNat_outstanding_header d.session hl
  have hdata := d.length_data_nextPiece o
  have hbefore := h.used
  have hpos := d.layout.recordHeaderLength_pos
  rw [free] at hheader
  rw [room, free] at hused hdata
  -- a block that is full takes no other piece
  have hlast : ∀ p ∈ ps, p.IsLast := by
    rcases h.closed with hall | ⟨hfull, -⟩
    · exact hall
    · rw [free] at hfull
      omega
  refine ⟨?_, by omega, fun p hp => ?_, fun p hp => ?_, ?_⟩
  · rw [hpayload, h.payload, hlayout, List.flatMap_append, List.flatMap_singleton]
  · rw [hsession]
    rcases List.mem_append.mp hp with hp | hp
    · exact h.ofSession p hp
    · rw [List.mem_singleton.mp hp]
      rfl
  · rcases List.mem_append.mp hp with hp | hp
    · exact h.outstanding p hp
    · rw [List.mem_singleton.mp hp, hlen, hdata]
      exact Nat.min_le_right ..
  · by_cases hfits : o.rest.length ≤ d.capacity - d.used - d.layout.recordHeaderLength
    · left
      intro p hp
      rcases List.mem_append.mp hp with hp | hp
      · exact hlast p hp
      · rw [List.mem_singleton.mp hp, Piece.IsLast, hlen, hdata, Nat.min_eq_right hfits]
    · right
      refine ⟨?_, by rw [List.dropLast_concat]; exact hlast⟩
      rw [free]
      omega

/-- What is read of the block yields the pieces in it. In the first layout they name their session
themselves. -/
theorem unpackAll (h : d.Contains ps) {b : LoadedBlock} (hl : b.layout = d.layout)
    (hs : d.layout = .bb01 ∨ b.session = d.session) (hr : b.rest = d.payload) (a : Assembler) :
    a.unpackAll b = a.receiveAll b.number ps := by
  have hlast : ∀ p ∈ ps.dropLast, p.IsLast := by
    rcases h.closed with hall | ⟨-, hall⟩
    · exact fun p hp => hall p (List.dropLast_subset ps hp)
    · exact hall
  refine Assembler.unpackAll_pieces a (fun p hp => ?_) ?_ h.outstanding hlast
  · rw [hl, h.ofSession p hp]
    exact hs.imp_right Eq.symm
  · rw [hr, h.payload, hl]

end Contains

structure IsFit (layout : HeaderLayout) (session : Session) (d : DraftBlock) : Prop where
  layout : d.layout = layout
  session : d.session = session
  room : d.layout.recordHeaderLength < d.capacity
  options : d.layout.alwaysChecksummed = true ∨
    BlockOptions.ofBits? d.options.bits = some d.options
  bound : d.layout.headerLength d.options + d.capacity ≤ maxBlockLength

theorem IsFit.pack {layout : HeaderLayout} {session : Session} {d d' : DraftBlock}
    (h : d.IsFit layout session) {o left : Outstanding} (hp : d.pack o = some (d', left)) :
    d'.IsFit layout session := by
  obtain ⟨-, -, i, j, rfl⟩ := exists_of_pack hp
  exact ⟨h.layout, h.session, h.room, h.options, h.bound⟩

/-- A stored block is read in its layout, with its number and what was packed; in the first layout
without its session. -/
theorem decode_encodeAsIs {d : DraftBlock}
    (ho : d.layout.alwaysChecksummed = true ∨ BlockOptions.ofBits? d.options.bits = some d.options)
    (hb : d.layout.headerLength d.options + d.used ≤ maxBlockLength) (verify : Bool)
    (address : Nat) :
    ∃ b, LoadedBlock.decode verify address d.encodeAsIs.2 = .ok b ∧ b.layout = d.layout ∧
      (d.layout = .bb01 ∨ b.session = d.session) ∧ b.number = d.number ∧ b.rest = d.payload := by
  have hlayout : d.encodeAsIs.1.layout = d.layout := BlockHeader.layout_complete ..
  have hlength : d.encodeAsIs.1.headerLength = d.layout.headerLength d.options := by
    rw [BlockHeader.headerLength, hlayout, encodeAsIs, BlockHeader.encode,
      BlockHeader.options_complete]
    change HeaderLayout.headerLength _ (if d.layout.alwaysChecksummed then _ else d.options) = _
    cases d.layout <;> rfl
  have hsession : d.encodeAsIs.1.session = if d.layout.hasSession then d.session else {} :=
    BlockHeader.session_complete ..
  have hsize : d.payload.length = d.used := Array.length_toList
  refine ⟨⟨d.encodeAsIs.1, address, d.payload⟩, ?_, hlayout, ?_, BlockHeader.number_complete .., rfl⟩
  · exact LoadedBlock.decode_encode verify address ho (by rw [hsize]; exact hlength ▸ hb)
  · rw [LoadedBlock.session, hsession]
    cases d.layout with
    | bb01 => exact .inl rfl
    | bb02 => exact .inr rfl
    | bb03 => exact .inr rfl

end DraftBlock
end BackupVolume
