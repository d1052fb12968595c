import BackupVolume.Proofs.Volume.Recording
import BackupVolume.Proofs.Volume.Truncation

/-! # Sinks that keep a block or refuse it

A sink may refuse blocks, as long as it keeps nothing of what it refuses. A writer in front of it
then goes on as if it had not tried: what its sink has stored, together with the block it is
filling, is what a writer would hold whose sink had taken every block.
-/
namespace BackupVolume

/-- A sink stores the blocks that it takes, one behind another, and nothing of those that it
refuses. -/
structure BlockSink.Stores {κ : Type} [BlockSink κ] (stored : κ → List Bytes) : Prop where
  taken {k l : κ} {b : Bytes} : write k b = (l, .ok ()) → stored l = stored k ++ [b]
  refused {k l : κ} {b : Bytes} {e : IoFault} : write k b = (l, .error e) → stored l = stored k

structure Shelf where
  blocks : List Bytes

instance : BlockSink Shelf where
  name _ := "shelf"
  write s b := (⟨s.blocks ++ [b]⟩, .ok ())
  canWrite _ := true
  release s := (s, .ok ())

theorem Shelf.writeAll_eq (s : Shelf) (bs : List Bytes) :
    BlockSink.writeAll s bs = (⟨s.blocks ++ bs⟩, .ok ()) := by
  induction bs generalizing s with
  | nil => rw [BlockSink.writeAll, List.append_nil]
  | cons b bs ih =>
    have hwrite : BlockSink.write s b = (⟨s.blocks ++ [b]⟩, .ok ()) := rfl
    rw [BlockSink.writeAll, hwrite]
    simp only [ih, List.append_assoc, List.singleton_append]

theorem Shelf.acceptsAll (s : Shelf) : BlockSink.AcceptsAll s := by
  intro bs
  rw [s.writeAll_eq]

def HasNumber (key : Option VolumeKey) (n : Nat) (bytes : Bytes) : Prop :=
  ∀ (verify : Bool) (address : Nat), ∃ b, LoadedBlock.load verify key ⟨address, bytes⟩ = .ok b ∧
    b.number = n.toUInt32

def AllNumbered (key : Option VolumeKey) (blocks : List Bytes) : Prop :=
  ∀ i b, blocks[i]? = some b → HasNumber key i b

theorem AllNumbered.snoc {key : Option VolumeKey} {blocks : List Bytes}
    (h : AllNumbered key blocks) {b : Bytes} (hb : HasNumber key blocks.length b) :
    AllNumbered key (blocks ++ [b]) := by
  intro i c hi
  rw [List.getElem?_append] at hi
  split at hi
  · exact h i c hi
  · rw [List.getElem?_singleton] at hi
    split at hi
    · cases hi
      rwa [show i = blocks.length by omega]
    · cases hi

namespace VolumeWriter

structure Shelves (start : Shelf) (key : Option VolumeKey) (session : Session)
    (u : VolumeWriter Shelf) (qs : List Placed) : Prop where
  holds : Holds start key session u qs
  numbered : ∀ blocks, u.sink.blocks = start.blocks ++ blocks → AllNumbered key blocks

namespace Shelves
variable {start : Shelf} {key : Option VolumeKey} {session : Session} {u : VolumeWriter Shelf}
  {qs : List Placed}

theorem create (start : Shelf) {blockSize : Nat} (hb : blockSize ≤ maxBlockLength)
    (session : Session) (checksums : Bool) (key : Option VolumeKey) (nonce : Nonce) :
    Shelves start key session (create start blockSize session checksums key nonce) [] := by
  refine ⟨holds_create start hb session checksums key nonce, fun blocks hblocks => ?_⟩
  have hnil : blocks = [] := List.append_right_eq_self.mp hblocks.symm
  rw [hnil]
  exact fun i b hi => by cases hi

/-- The nonce of the next block is of no account. -/
theorem withNonce (h : Shelves start key session u qs) (nonce : Nonce) :
    Shelves start key session { u with nonce } qs := by
  obtain ⟨⟨blocks, laid, filled, hw, hqs⟩, hnumbered⟩ := h
  have hsound := hw.sound
  exact ⟨⟨blocks, laid, filled, { hw with
    sound := ⟨hsound.layout, hsound.options, hsound.room, hsound.bound, hsound.used⟩ }, hqs⟩,
    hnumbered⟩

theorem pack (h : Shelves start key session u qs) {o left : Outstanding} {d : DraftBlock}
    (hl : o.rest.length < 2 ^ 32) (hp : u.draft.pack o = some (d, left)) :
    Shelves start key session { u with draft := d }
      (qs ++ [⟨u.blocksWritten, u.draft.nextPiece o⟩]) :=
  ⟨h.holds.pack hl hp, h.numbered⟩

/-- A block is numbered by the blocks before it. -/
theorem flush (h : Shelves start key session u qs) :
    ∃ v, u.flush = (v, .ok ()) ∧ Shelves start key session v qs := by
  obtain ⟨v, hv, hheld⟩ := h.holds.flush start.acceptsAll
  refine ⟨v, hv, hheld, fun after hafter => ?_⟩
  cases flush_eq_iff.mp hv with
  | empty => exact h.numbered after hafter
  | @taken raw sink he hraw hwrite =>
    have hshelf : BlockSink.write u.sink raw = (⟨u.sink.blocks ++ [raw]⟩, .ok ()) := rfl
    rw [hshelf] at hwrite
    cases hwrite
    obtain ⟨blocks, laid, filled, hw, -⟩ := h.holds
    have hblocks : u.sink.blocks = start.blocks ++ blocks := by
      rw [hw.handed, start.writeAll_eq]
    obtain rfl : blocks ++ [raw] = after := by
      rw [hblocks, List.append_assoc] at hafter
      exact List.append_cancel_left hafter
    refine (h.numbered blocks hblocks).snoc fun verify address => ?_
    obtain ⟨b, hb, -, -, hnumber, -, -⟩ := load_block hw.sound hraw verify address
    rw [hw.sealedBy] at hb
    exact ⟨b, hb, hnumber.trans hw.number⟩

end Shelves

section Stored
variable {κ : Type} [BlockSink κ] {stored : κ → List Bytes} {start : Shelf}
  {key : Option VolumeKey} {session : Session} {w v : VolumeWriter κ} {qs : List Placed}

def shelved (stored : κ → List Bytes) (w : VolumeWriter κ) : VolumeWriter Shelf :=
  { w with sink := ⟨stored w.sink⟩ }

/-- A block that the sink takes is put on the shelf. -/
theorem shelved_flush_ok (hs : BlockSink.Stores stored) (h : w.flush = (v, .ok ())) :
    (w.shelved stored).flush = (v.shelved stored, .ok ()) := by
  refine Flushes.flush_eq ?_
  cases flush_eq_iff.mp h with
  | empty he => exact .empty he
  | @taken raw sink he hraw hwrite =>
    have hshelf : BlockSink.write (w.shelved stored).sink raw = (⟨stored sink⟩, .ok ()) := by
      simp only [BlockSink.write, shelved, hs.taken hwrite]
    exact .taken (w := w.shelved stored) he hraw hshelf

/-- A block that is refused stays where it is. -/
theorem shelved_flush_error (hs : BlockSink.Stores stored) {e : Failure}
    (h : w.flush = (v, .error e)) : v.shelved stored = { w.shelved stored with nonce := v.nonce } := by
  cases flush_eq_iff.mp h with
  | unsealed => rfl
  | refused _ _ hwrite => simp only [shelved, hs.refused hwrite]

namespace Shelves

/-- Whether the sink takes the block or not, nothing of what the writer holds gets lost. -/
theorem flushed (hs : BlockSink.Stores stored)
    (h : Shelves start key session (w.shelved stored) qs) {x : Except Failure Unit}
    (hf : w.flush = (v, x)) : Shelves start key session (v.shelved stored) qs := by
  rcases x with e | ⟨⟨⟩⟩
  · rw [shelved_flush_error hs hf]
    exact h.withNonce v.nonce
  · obtain ⟨u, hu, hheld⟩ := h.flush
    rw [shelved_flush_ok hs hf] at hu
    cases hu
    exact hheld

/-- Storing lays down the pieces of a record, up to a block that the sink refuses. -/
theorem stores (hs : BlockSink.Stores stored)
    (h : Shelves start key session (w.shelved stored) qs) {o left : Outstanding}
    (hl : o.rest.length < 2 ^ 32) {x : Except Failure Unit} (hw : w.store o = (v, left, x)) :
    ∃ ps, ps <+: (w.shelved stored).placed o ∧
      Shelves start key session (v.shelved stored) (qs ++ ps) ∧
      (x = .ok () → ps = (w.shelved stored).placed o) := by
  fun_induction VolumeWriter.store w o generalizing qs with
  | case1 w o d l packed w' =>
    rename_i done
    have hplaced := placed_last (w := w.shelved stored) packed done
    have hv : w' = v := congrArg Prod.fst hw
    refine ⟨_, List.prefix_rfl, ?_, fun _ => rfl⟩
    rw [hplaced, ← hv]
    exact h.pack hl packed
  | case2 w o d l packed w' done u e =>
    rename_i flushed
    cases hw
    obtain ⟨t, ht, -⟩ := (h.pack hl packed).flush
    have hplaced := placed_split (w := w.shelved stored) packed done ht
    rw [hplaced]
    refine ⟨[⟨w.blocksWritten, w.draft.nextPiece o⟩], ⟨_, rfl⟩, ?_, fun hx => by cases hx⟩
    exact Shelves.flushed (w := w') hs (h.pack hl packed) flushed
  | case3 w o d l packed w' done u =>
    rename_i flushed ih
    have hless : l.rest.length < 2 ^ 32 := by
      obtain ⟨-, rfl, -⟩ := DraftBlock.exists_of_pack packed
      rw [o.length_rest_after]
      omega
    have hshelved := shelved_flush_ok (w := w') hs flushed
    have hplaced := placed_split (w := w.shelved stored) packed done hshelved
    obtain ⟨ps, hps, hholds, hall⟩ := ih (Shelves.flushed (w := w') hs (h.pack hl packed) flushed)
      hless hw
    rw [hplaced]
    refine ⟨⟨w.blocksWritten, w.draft.nextPiece o⟩ :: ps, List.cons_prefix_cons.mpr ⟨rfl, hps⟩,
      ?_, fun hx => congrArg _ (hall hx)⟩
    rw [List.append_cons]
    exact hholds
  | case4 w o packed empty => exact absurd packed (h.holds.pack_ne_none empty o)
  | case5 w o packed empty u e flushed =>
    cases hw
    refine ⟨[], List.nil_prefix, ?_, fun hx => by cases hx⟩
    rw [List.append_nil]
    exact h.flushed hs flushed
  | case6 w o packed empty u flushed ih =>
    rw [placed_behind (w := w.shelved stored) packed empty (shelved_flush_ok hs flushed)]
    exact ih (h.flushed hs flushed) hl hw

end Shelves

/-- The writer has been passed these records and holds all of their pieces. -/
def HoldsAll (stored : κ → List Bytes) (start : Shelf) (key : Option VolumeKey)
    (session : Session) (w : VolumeWriter κ) (rs : List Record) : Prop :=
  ∃ ps : List Placement,
    Shelves start key session (w.shelved stored) (ps.flatMap Placement.pieces) ∧
    (∀ p ∈ ps, p.IsSound session) ∧ ps.map Placement.record = rs

def HoldsFirst (stored : κ → List Bytes) (start : Shelf) (key : Option VolumeKey)
    (session : Session) (w : VolumeWriter κ) (rs : List Record) : Prop :=
  ∃ (ps : List Placement) (qs : List Placed), Shelves start key session (w.shelved stored) qs ∧
    qs <+: ps.flatMap Placement.pieces ∧ (∀ p ∈ ps, p.IsSound session) ∧
    ps.map Placement.record = rs

variable {rs : List Record}

/-- A record is stored behind the others, or as far as the sink takes blocks. -/
theorem HoldsAll.writeRecord (hs : BlockSink.Stores stored)
    (h : HoldsAll stored start key session w rs) {r : Record} (ht : 0 < r.tag.raw)
    (hl : r.payload.length < 2 ^ 32) {left : Outstanding} {x : Except Failure Unit}
    (hw : w.writeRecord r = (v, left, x)) :
    HoldsFirst stored start key session v (rs ++ [r]) ∧
      (x = .ok () → HoldsAll stored start key session v (rs ++ [r])) := by
  obtain ⟨ps, hholds, hsound, hrecords⟩ := h
  obtain ⟨-, -, -, -, hcut⟩ := hholds.holds.store start.acceptsAll (o := .whole r) hl
  obtain ⟨qs, hqs, hstored, hall⟩ := hholds.stores hs (o := .whole r) hl hw
  obtain ⟨p, hp⟩ : ∃ p : Placement, p = ⟨r, (w.shelved stored).placed (.whole r)⟩ := ⟨_, rfl⟩
  have hpieces : p.pieces = (w.shelved stored).placed (.whole r) := by rw [hp]
  have hplaced : ∀ q ∈ ps ++ [p], q.IsSound session := by
    intro q hq
    rcases List.mem_append.mp hq with hq | hq
    · exact hsound q hq
    · rw [List.mem_singleton.mp hq, hp]
      exact ⟨hcut, ht, hl⟩
  have hmap : (ps ++ [p]).map Placement.record = rs ++ [r] := by
    rw [List.map_append, hrecords, hp]
    rfl
  have hflat : (ps ++ [p]).flatMap Placement.pieces
      = ps.flatMap Placement.pieces ++ (w.shelved stored).placed (.whole r) := by
    rw [List.flatMap_append, List.flatMap_singleton, hpieces]
  refine ⟨⟨ps ++ [p], _, hstored, ?_, hplaced, hmap⟩, fun hx => ⟨ps ++ [p], ?_, hplaced, hmap⟩⟩
  · rw [hflat]
    exact (List.prefix_append_right_inj _).mpr hqs
  · rw [hflat, ← hall hx]
    exact hstored

theorem HoldsAll.flushed (hs : BlockSink.Stores stored)
    (h : HoldsAll stored start key session w rs) {x : Except Failure Unit}
    (hf : w.flush = (v, x)) : HoldsAll stored start key session v rs := by
  obtain ⟨ps, hholds, hrest⟩ := h
  exact ⟨ps, hholds.flushed hs hf, hrest⟩

theorem HoldsFirst.flushed (hs : BlockSink.Stores stored)
    (h : HoldsFirst stored start key session w rs) {x : Except Failure Unit}
    (hf : w.flush = (v, x)) : HoldsFirst stored start key session v rs := by
  obtain ⟨ps, qs, hholds, hrest⟩ := h
  exact ⟨ps, qs, hholds.flushed hs hf, hrest⟩

/-- The blocks behind those that were there at first are numbered, and the first of some records
are read from them. -/
def LeavesFirst (σ : Type) [BlockSource σ] (key : Option VolumeKey) (session : Session)
    (before after : List Bytes) (rs found : List Record) : Prop :=
  ∃ blocks, after = before ++ blocks ∧ AllNumbered key blocks ∧ found <+: rs ∧
    ReadsOut σ key session blocks found

end Stored

section Shown
variable {κ : Type} {stored : κ → List Bytes} {start : Shelf} {key : Option VolumeKey}
  {session : Session} {w : VolumeWriter κ} {rs : List Record}

theorem holdsAll_create (stored : κ → List Bytes) (sink : κ) {blockSize : Nat}
    (hb : blockSize ≤ maxBlockLength) (session : Session) (checksums : Bool)
    (key : Option VolumeKey) (nonce : Nonce) :
    HoldsAll stored ⟨stored sink⟩ key session
      (create sink blockSize session checksums key nonce) [] :=
  ⟨[], .create ⟨stored sink⟩ hb session checksums key nonce, by simp, rfl⟩

theorem HoldsAll.first (h : HoldsAll stored start key session w rs) :
    HoldsFirst stored start key session w rs := by
  obtain ⟨ps, hholds, hsound, hrecords⟩ := h
  exact ⟨ps, _, hholds, List.prefix_rfl, hsound, hrecords⟩

/-- What the sink has stored is read as the first of the records, and as all of them once the block
that was being filled is flushed. -/
theorem Shelves.leaves (σ : Type) [BlockSource σ] {qs : List Placed}
    (h : Shelves start key session (w.shelved stored) qs) {ps : List Placement}
    (hqs : qs <+: ps.flatMap Placement.pieces) (hsound : ∀ p ∈ ps, p.IsSound session) :
    ∃ found,
      LeavesFirst σ key session start.blocks (stored w.sink) (ps.map Placement.record) found ∧
      (w.draft.isEmpty = true → qs = ps.flatMap Placement.pieces →
        found = ps.map Placement.record) := by
  obtain ⟨⟨blocks, laid, filled, hw, rfl⟩, hnumbered⟩ := h
  have hstored : stored w.sink = start.blocks ++ blocks := by
    have hsink := congrArg Shelf.blocks hw.handed
    rwa [start.writeAll_eq] at hsink
  obtain ⟨found, hfound, hread, hall⟩ :=
    hw.shown.readsOut σ hsound ((List.prefix_append _ _).trans hqs)
  refine ⟨found, ⟨blocks, hstored, hnumbered blocks hstored, hfound, hread⟩, fun he heq => hall ?_⟩
  rw [← heq, hw.isEmpty_iff.mp he, List.map_nil, List.append_nil]

theorem HoldsFirst.leaves (σ : Type) [BlockSource σ]
    (h : HoldsFirst stored start key session w rs) :
    ∃ found, LeavesFirst σ key session start.blocks (stored w.sink) rs found := by
  obtain ⟨ps, qs, hholds, hqs, hsound, rfl⟩ := h
  obtain ⟨found, hleaves, -⟩ := hholds.leaves σ hqs hsound
  exact ⟨found, hleaves⟩

theorem HoldsAll.leaves (σ : Type) [BlockSource σ]
    (h : HoldsAll stored start key session w rs) (he : w.draft.isEmpty = true) :
    LeavesFirst σ key session start.blocks (stored w.sink) rs rs := by
  obtain ⟨ps, hholds, hsound, rfl⟩ := h
  obtain ⟨found, hleaves, hall⟩ := hholds.leaves σ List.prefix_rfl hsound
  rwa [hall he rfl] at hleaves

end Shown
end VolumeWriter
end BackupVolume
