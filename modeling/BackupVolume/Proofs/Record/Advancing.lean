import BackupVolume.Proofs.Block.Packing
import BackupVolume.Proofs.Volume.Failing

/-! # Packing advances

A record is offered to one block after another, and is told by the number of its octets that remain.
That number is zero before the first piece and behind the last one. Every block that is not too full
takes a piece, and with it at least one of the octets that are pending, so that the pieces come to
an end and are the payload as a whole.
-/
namespace BackupVolume

/-- What is still to be packed of a payload, where so many octets remain and zero stands for all. -/
def Record.pending (r : Record) (n : Nat) : Bytes :=
  r.payload.drop (if n = 0 then 0 else r.payload.length - n)

theorem Outstanding.rest_lastOctets (r : Record) (n : Nat) :
    (lastOctets r n).rest = r.pending n := rfl

/-- Offers a block a record of which so much remains: whether the block takes a piece, the block
behind that, and what then remains. -/
def DraftBlock.offer (d : DraftBlock) (r : Record) (n : Nat) : Bool × DraftBlock × Nat :=
  match d.pack (.lastOctets r n) with
  | some (d', left) => (true, d', left.remainder)
  | none => (false, d, n)

/-- A block that was made with a capacity, and was packed and emptied since. -/
inductive DraftBlock.IsReached (capacity : Nat) : DraftBlock → Prop
  | new (session : Session) (layout : HeaderLayout) (options : BlockOptions) :
      IsReached capacity { capacity, session, layout, options }
  | offered {d : DraftBlock} (r : Record) (n : Nat) :
      IsReached capacity d → IsReached capacity (d.offer r n).2.1
  | reset {d : DraftBlock} (number : UInt32) :
      IsReached capacity d → IsReached capacity (d.reset number)

inductive Record.Remains (r : Record) : Nat → Prop
  | untouched : Remains r 0
  | offered {n : Nat} (d : DraftBlock) : Remains r n → Remains r (d.offer r n).2.2

namespace DraftBlock

theorem offer_cases (d : DraftBlock) (r : Record) (n : Nat) :
    (d.pack (.lastOctets r n) = none ∧ d.offer r n = (false, d, n)) ∨
      ∃ d' left, d.pack (.lastOctets r n) = some (d', left) ∧
        d.offer r n = (true, d', left.remainder) := by
  unfold offer
  rcases d.pack (.lastOctets r n) with _ | ⟨d', left⟩
  · exact .inl ⟨rfl, rfl⟩
  · exact .inr ⟨d', left, rfl, rfl⟩

theorem exists_of_offer {d d' : DraftBlock} {r : Record} {n n' : Nat}
    (h : d.offer r n = (true, d', n')) :
    ∃ left, d.pack (.lastOctets r n) = some (d', left) ∧ left.remainder = n' := by
  rcases d.offer_cases r n with ⟨-, hfull⟩ | ⟨e, left, hpack, htaken⟩
  · rw [hfull] at h
    cases h
  · rw [htaken] at h
    simp only [Prod.mk.injEq, true_and] at h
    obtain ⟨rfl, hleft⟩ := h
    exact ⟨left, hpack, hleft⟩

theorem IsReached.used_le {capacity : Nat} {d : DraftBlock} (h : d.IsReached capacity) :
    d.used ≤ d.capacity := by
  induction h with
  | new session layout options => exact Nat.zero_le _
  | @offered d r n _ ih =>
    rcases d.offer_cases r n with ⟨-, hoffer⟩ | ⟨d', left, hpack, hoffer⟩
    · rw [hoffer]
      exact ih
    · rw [hoffer]
      exact used_le_of_pack ih hpack
  | reset number _ _ => exact Nat.zero_le _

theorem IsReached.capacity_eq {capacity : Nat} {d : DraftBlock} (h : d.IsReached capacity) :
    d.capacity = capacity := by
  induction h with
  | new session layout options => rfl
  | @offered d r n _ ih =>
    rcases d.offer_cases r n with ⟨-, hoffer⟩ | ⟨d', left, hpack, hoffer⟩
    · rw [hoffer]
      exact ih
    · obtain ⟨-, -, i, j, rfl⟩ := exists_of_pack hpack
      rw [hoffer]
      exact ih
  | reset number _ ih => exact ih

theorem needed_lastOctets (d : DraftBlock) (r : Record) (n : Nat) :
    d.needed (.lastOctets r n)
      = d.layout.recordHeaderLength + if r.pending n = [] then 0 else 1 := by
  have hcomplete : (Outstanding.lastOctets r n).isComplete = true ↔ r.pending n = [] :=
    List.isEmpty_iff
  simp only [needed, hcomplete]

end DraftBlock

namespace Record

theorem length_pending_le (r : Record) (n : Nat) : (r.pending n).length ≤ r.payload.length := by
  rw [pending, List.length_drop]
  omega

/-- Less remains than the record has, since every piece takes some of what is pending. -/
theorem remains_of_pack {r : Record} {n : Nat} {d d' : DraftBlock} {left : Outstanding}
    (h : d.pack (.lastOctets r n) = some (d', left)) :
    left.remainder = (r.pending n).length - d.room ∧ (r.pending n ≠ [] → 0 < d.room) := by
  obtain ⟨hneeded, rfl, -⟩ := DraftBlock.exists_of_pack h
  constructor
  · exact Outstanding.length_rest_after _ _
  · intro hsome
    rw [d.needed_lastOctets, if_neg hsome] at hneeded
    rw [DraftBlock.room]
    omega

theorem Remains.lt_length {r : Record} {n : Nat} (h : r.Remains n) :
    n = 0 ∨ n < r.payload.length := by
  induction h with
  | untouched => exact .inl rfl
  | @offered n d _ ih =>
    rcases d.offer_cases r n with ⟨-, hoffer⟩ | ⟨d', left, hpack, hoffer⟩
    · rw [hoffer]
      exact ih
    · obtain ⟨hleft, hroom⟩ := remains_of_pack hpack
      have hle := r.length_pending_le n
      rw [hoffer]
      dsimp only
      by_cases hsome : r.pending n = []
      · left
        rw [hleft, hsome]
        exact Nat.zero_sub _
      · have := hroom hsome
        have := List.length_pos_iff.mpr hsome
        omega

/-- The number of octets that remain tells where the next piece begins. -/
theorem lastOctets_of_pack {r : Record} {n : Nat} {d d' : DraftBlock} {left : Outstanding}
    (h : d.pack (.lastOctets r n) = some (d', left)) (hleft : left.remainder ≠ 0) :
    Outstanding.lastOctets r left.remainder = left := by
  obtain ⟨hremainder, hroom⟩ := remains_of_pack h
  obtain ⟨-, hafter, -⟩ := DraftBlock.exists_of_pack h
  have hlength : (r.pending n).length
      = r.payload.length - if n = 0 then 0 else r.payload.length - n := List.length_drop
  have hsome : r.pending n ≠ [] := by
    intro hnone
    rw [hnone] at hremainder
    exact hleft (hremainder.trans (Nat.zero_sub _))
  have hpos := hroom hsome
  have hstored : r.payload.length - left.remainder
      = (if n = 0 then 0 else r.payload.length - n) + d.room := by omega
  rw [Outstanding.lastOctets, if_neg hleft, hstored, hafter, Outstanding.after,
    Outstanding.rest_lastOctets, pending, List.drop_drop]
  have hstarted : (if n = 0 then 0 else r.payload.length - n) + d.room ≠ 0 := by omega
  simp only [Outstanding.lastOctets, bne_iff_ne.mpr hstarted]

theorem pending_of_pack {r : Record} {n : Nat} {d d' : DraftBlock} {left : Outstanding}
    (h : d.pack (.lastOctets r n) = some (d', left)) (hleft : left.remainder ≠ 0) :
    r.pending left.remainder = (r.pending n).drop d.room := by
  obtain ⟨-, hafter, -⟩ := DraftBlock.exists_of_pack h
  have hrest := congrArg Outstanding.rest (lastOctets_of_pack h hleft)
  rw [hafter] at hrest ⊢
  exact hrest

theorem pieceTag_lastOctets {r : Record} {n : Nat} (hr : r.Remains n) :
    (Outstanding.lastOctets r n).pieceTag = if n = 0 then r.tag else r.tag.continuation := by
  rcases hr.lt_length with rfl | hn
  · rfl
  · by_cases hzero : n = 0
    · rw [hzero]
      rfl
    · have hstored : r.payload.length - n ≠ 0 := by omega
      simp [Outstanding.pieceTag, Outstanding.lastOctets, hzero, hstored]

/-- The piece went into the block: behind what was there stand a header that tells what was pending,
and as much of that as there was room for. What is left is pending behind it, and the block is full.
-/
structure Advance (r : Record) (n : Nat) (d : DraftBlock) (p : Piece) (d' : DraftBlock)
    (n' : Nat) : Prop where
  appended : d'.payload = d.payload ++ (p.head.toBytes d.layout ++ p.data)
  kept : ∃ area i j, d' = { d with area, firstIndex := i, lastIndex := j }
  owner : p.head.fileIndex = r.fileIndex ∧ p.head.session = d.session
  tag : p.head.tag = if n = 0 then r.tag else r.tag.continuation
  outstanding : p.head.outstanding.toNat = (r.pending n).length
  data : p.data = (r.pending n).take (d.free - d.layout.recordHeaderLength)
  remainder : n' + p.data.length = (r.pending n).length
  progress : r.pending n ≠ [] → p.data ≠ []
  full : n' ≠ 0 → d'.free = 0 ∧ r.pending n' = (r.pending n).drop p.data.length

theorem advance_of_pack {r : Record} {n : Nat} (hr : r.Remains n) (hl : r.payload.length < 2 ^ 32)
    {d d' : DraftBlock} (hd : d.used ≤ d.capacity) {left : Outstanding}
    (h : d.pack (.lastOctets r n) = some (d', left)) :
    r.Advance n d (d.nextPiece (.lastOctets r n)) d' left.remainder := by
  obtain ⟨hremainder, hroom⟩ := remains_of_pack h
  obtain ⟨hheader, hused⟩ := DraftBlock.used_of_pack h
  obtain ⟨-, -, i, j, hd'⟩ := DraftBlock.exists_of_pack h
  have hlength := d.length_data_nextPiece (.lastOctets r n)
  have hle := r.length_pending_le n
  rw [Outstanding.rest_lastOctets] at hused hlength
  refine ⟨DraftBlock.payload_of_pack h, ⟨_, i, j, hd'⟩, ⟨rfl, rfl⟩, pieceTag_lastOctets hr, ?_, rfl,
    by omega, ?_, ?_⟩
  · exact Outstanding.toNat_outstanding_header _ _ (Nat.lt_of_le_of_lt hle hl)
  · intro hsome
    have hpos := hroom hsome
    have hlong := List.length_pos_iff.mpr hsome
    apply List.ne_nil_of_length_pos
    omega
  · intro hleft
    have hcapacity : d'.capacity = d.capacity := by rw [hd']
    rw [DraftBlock.room, DraftBlock.free] at hused
    rw [DraftBlock.free] at hheader
    constructor
    · rw [DraftBlock.free]
      rw [DraftBlock.room, DraftBlock.free] at hremainder
      omega
    · rw [pending_of_pack h hleft]
      congr 1
      omega

/-- The pieces that blocks take of a record, one after another, until nothing remains. Blocks that
are too full to take one stand between them. -/
inductive Packs (r : Record) : Nat → List Piece → Prop
  | last {n : Nat} {d d' : DraftBlock} : d.offer r n = (true, d', 0) →
      Packs r n [d.nextPiece (.lastOctets r n)]
  | more {n n' : Nat} {d d' : DraftBlock} {ps : List Piece} : d.offer r n = (true, d', n') →
      n' ≠ 0 → Packs r n' ps → Packs r n (d.nextPiece (.lastOctets r n) :: ps)

/-- The pieces are the pending octets in their order. Each of them but an only one takes an octet.
-/
theorem Packs.pieces {r : Record} {n : Nat} {ps : List Piece} (h : r.Packs n ps)
    (hr : r.Remains n) :
    ps.flatMap Piece.data = r.pending n ∧ ps.length ≤ max (r.pending n).length 1 ∧
      ∃ p qs, ps = p :: qs ∧ p.head.tag = (if n = 0 then r.tag else r.tag.continuation) ∧
        ∀ q ∈ qs, q.head.tag = r.tag.continuation := by
  induction h with
  | @last n d d' hoffer =>
    obtain ⟨left, hpack, hleft⟩ := DraftBlock.exists_of_offer hoffer
    obtain ⟨hremainder, -⟩ := remains_of_pack hpack
    refine ⟨?_, Nat.le_max_right _ _, _, [], rfl, pieceTag_lastOctets hr, nofun⟩
    rw [List.flatMap_singleton]
    exact List.take_of_length_le (by rw [Outstanding.rest_lastOctets]; omega)
  | @more n n' d d' ps hoffer hn' _ ih =>
    have hrest : r.Remains n' := by
      have hoffered := Remains.offered d hr
      rwa [hoffer] at hoffered
    obtain ⟨left, hpack, rfl⟩ := DraftBlock.exists_of_offer hoffer
    obtain ⟨hdata, hcount, p, qs, rfl, htag, htags⟩ := ih hrest
    obtain ⟨hremainder, hroom⟩ := remains_of_pack hpack
    have hpending := pending_of_pack hpack hn'
    have hsome : r.pending n ≠ [] := by
      apply List.ne_nil_of_length_pos
      omega
    have hpos := hroom hsome
    refine ⟨?_, ?_, _, p :: qs, rfl, pieceTag_lastOctets hr, ?_⟩
    · rw [List.flatMap_cons, hdata, hpending]
      exact List.take_append_drop _ _
    · rw [hpending, List.length_drop] at hcount
      rw [List.length_cons]
      omega
    · intro q hq
      rcases List.mem_cons.mp hq with rfl | hq
      · rw [htag, if_neg hn']
      · exact htags q hq

end Record

open DraftBlock in
/-- No block that was made, packed and emptied holds more than its capacity. It refuses what is left
of a record exactly where its free room is below a header and an octet, or a header where nothing is
pending, and then all stays as it was; otherwise it takes the next piece, which has an octet where
one is pending, and only a full block leaves some of the record. The pieces that are taken until
nothing remains are the payload, the first one under the tag of the record and all others under that
of its continuation. Whatever was written before, a writer stores the record as a whole, is refused
by its sink, or has filled a block that is too long to be sealed. -/
theorem packing_advances :
    (∀ (capacity : Nat) (d : DraftBlock), d.IsReached capacity →
      d.capacity = capacity ∧ d.used ≤ capacity ∧
      ∀ (r : Record) (n : Nat), r.Remains n → r.payload.length < 2 ^ 32 →
        ((d.offer r n).1 = false ↔
          d.free < d.layout.recordHeaderLength + if r.pending n = [] then 0 else 1) ∧
        ((d.offer r n).1 = false → d.offer r n = (false, d, n)) ∧
        ∀ d' n', d.offer r n = (true, d', n') →
          r.Advance n d (d.nextPiece (.lastOctets r n)) d' n') ∧
    (∀ (r : Record) (ps : List Piece), r.Packs 0 ps →
      ps.flatMap Piece.data = r.payload ∧ ps.length ≤ max r.payload.length 1 ∧
      ∃ p qs, ps = p :: qs ∧ p.head.tag = r.tag ∧
        ∀ q ∈ qs, q.head.tag = r.tag.continuation) ∧
    ∀ (κ : Type) [BlockSink κ] (sink : κ) (blockSize : Nat) (session : Session) (checksums : Bool)
      (key : Option VolumeKey) (nonce : Nonce) (steps : List WriterStep) (r : Record),
      let new := VolumeWriter.create sink blockSize session checksums key nonce
      let w := new.proceedAll steps
      (∃ v left, w.writeRecord r = (v, left, .ok ()) ∧ left.isComplete = true) ∨
        ∃ v left e, w.writeRecord r = (v, left, .error e) ∧
          ((e = .crypto .encryptionFailed ∧ key.isSome = true ∧
              Cipher.Gcm.maxLength < new.draft.capacity) ∨
            ∃ path fault, e = .write path fault) := by
  refine ⟨?_, ?_, ?_⟩
  · intro capacity d hd
    have hused := hd.used_le
    refine ⟨hd.capacity_eq, hd.capacity_eq ▸ hused, fun r n hr hl => ⟨?_, ?_, ?_⟩⟩
    · rw [← d.needed_lastOctets, ← pack_eq_none_iff]
      rcases d.offer_cases r n with ⟨hpack, hoffer⟩ | ⟨d', left, hpack, hoffer⟩
      · simp [hpack, hoffer]
      · simp [hpack, hoffer]
    · intro hfull
      rcases d.offer_cases r n with ⟨-, hoffer⟩ | ⟨d', left, -, hoffer⟩
      · exact hoffer
      · rw [hoffer] at hfull
        cases hfull
    · intro d' n' hoffer
      obtain ⟨left, hpack, rfl⟩ := exists_of_offer hoffer
      exact Record.advance_of_pack hr hl hused hpack
  · intro r ps hps
    exact hps.pieces .untouched
  · intro κ _ sink blockSize session checksums key nonce steps r new w
    have hroom : w.HasRoom key new.draft.capacity :=
      (VolumeWriter.hasRoom_create sink blockSize session checksums key nonce).proceedAll steps
    exact hroom.store_ends (.whole r)

/-- Two octets, in blocks with room for one. -/
theorem packing_advances_narrow :
    let r : Record := ⟨1, ⟨2⟩, [7, 8], {}, 0⟩
    let d : DraftBlock := { capacity := 13, session := ⟨7, 9⟩ }
    let head (tag : Int32) (n : UInt32) : PieceHeader := ⟨1, ⟨tag⟩, n, ⟨7, 9⟩⟩
    d.IsReached 13 ∧ r.Remains 0 ∧ r.Remains 1 ∧ r.payload.length < 2 ^ 32 ∧
      (d.offer r 0).2.2 = 1 ∧ (d.offer r 0).2.1.payload = (head 2 2).toBytes .bb03 ++ [7] ∧
      (d.offer r 0).2.1.offer r 1 = (false, (d.offer r 0).2.1, 1) ∧
      r.Packs 0 [⟨head 2 2, [7]⟩, ⟨head (-2) 1, [8]⟩] ∧ [7] ++ [8] = r.payload := by
  intro r d head
  have hd : d.IsReached 13 := .new ..
  have hnext : (d.offer r 0).2.1.IsReached 13 := .offered r 0 hd
  have hr : r.Remains 1 := .offered d .untouched
  have hl : r.payload.length < 2 ^ 32 := by decide
  have hoffer : d.offer r 0 = (true, (d.offer r 0).2.1, 1) := rfl
  have hoffer' : d.offer r 1 = (true, (d.offer r 1).2.1, 0) := rfl
  have hhead : (d.nextPiece (.lastOctets r 1)).head = head (-2) 1 := by decide
  have hpiece : d.nextPiece (.lastOctets r 1) = ⟨head (-2) 1, [8]⟩ :=
    congrArg (Piece.mk · [8]) hhead
  have hpacks : r.Packs 0 [⟨head 2 2, [7]⟩, ⟨head (-2) 1, [8]⟩] :=
    hpiece ▸ .more hoffer (by decide) (.last hoffer')
  obtain ⟨-, -, hfirst⟩ := packing_advances.1 13 d hd
  obtain ⟨-, -, hadvance⟩ := hfirst r 0 .untouched hl
  obtain ⟨-, -, hsecond⟩ := packing_advances.1 13 _ hnext
  obtain ⟨hfull, hunchanged, -⟩ := hsecond r 1 hr hl
  refine ⟨hd, .untouched, hr, hl, rfl, ?_, ?_, hpacks, ?_⟩
  · exact (hadvance _ 1 rfl).appended
  · exact hunchanged (hfull.mpr (by decide))
  · exact (packing_advances.2.1 r _ hpacks).1

end BackupVolume
