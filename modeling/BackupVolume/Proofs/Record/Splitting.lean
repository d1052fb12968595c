import BackupVolume.Proofs.Record.Rewriting
import BackupVolume.Proofs.Volume.Placement

/-! # Records in blocks of any layout

Records are packed into one block after another. Each block has its own room, and it is left where
it takes no more or for no reason at all. The layout tells how long the header of a piece is, and
whether the piece or the block names the session. When the blocks are stored and read in their
order, the records are there again, in the session of the blocks.
-/
namespace BackupVolume

/-- An empty block of a layout and a session that can take a piece of any record. -/
structure BlankBlock (layout : HeaderLayout) (session : Session) where
  draft : DraftBlock
  isEmpty : draft.isEmpty = true
  isFit : draft.IsFit layout session

structure Filling where
  behind : List DraftBlock
  current : DraftBlock

namespace Filling

def drafts (f : Filling) : List DraftBlock := f.behind ++ [f.current]

section Packing
variable {layout : HeaderLayout} {session : Session} (blank : Nat → BlankBlock layout session)

def start : Filling := ⟨[], (blank 0).draft⟩

def turn (f : Filling) : Filling := ⟨f.drafts, (blank f.drafts.length).draft⟩

/-- Packs what is left of a record, and leaves every block that takes no more of it; nothing if not
even an empty block takes a piece. -/
def store (f : Filling) (o : Outstanding) : Option Filling :=
  match _packed : f.current.pack o with
  | some (current, left) =>
    match _left : left.isComplete with
    | true => some { f with current }
    | false => store (turn blank { f with current }) left
  | none =>
    match _empty : f.current.isEmpty with
    | true => none
    | false => store (turn blank f) o
termination_by 2 * o.rest.length + if f.current.isEmpty then 0 else 1
decreasing_by
  -- the next block is empty, which counts less than a block that has refused
  · have := DraftBlock.rest_lt_of_pack _packed _left
    simp only [turn, (blank _).isEmpty, if_true]
    omega
  · simp only [turn, (blank _).isEmpty, _empty, if_true]
    exact Nat.lt_succ_self _

def perform (f : Filling) : List WriterStep → Option Filling
  | [] => some f
  | .record r :: steps =>
    match f.store blank (.whole r) with
    | none => none
    | some f => perform f steps
  | .flush :: steps => perform (turn blank f) steps

end Packing
end Filling

namespace DraftBlock
variable {layout : HeaderLayout} {session : Session} {d d' : DraftBlock} {qs : List Placed}

structure Keeps (layout : HeaderLayout) (session : Session) (d : DraftBlock) (qs : List Placed) :
    Prop where
  isFit : d.IsFit layout session
  pieces : ∃ ps, d.Contains ps ∧ qs = ps.map (.mk d.number.toNat)

theorem keeps_blank (blank : BlankBlock layout session) : blank.draft.Keeps layout session [] :=
  ⟨blank.isFit, [], contains_nil blank.isEmpty, rfl⟩

theorem Keeps.pack (h : d.Keeps layout session qs) {o left : Outstanding}
    (hl : o.rest.length < 2 ^ 32) (hp : d.pack o = some (d', left)) :
    d'.Keeps layout session (qs ++ [⟨d.number.toNat, d.nextPiece o⟩]) := by
  obtain ⟨ps, hps, rfl⟩ := h.pieces
  obtain ⟨-, -, i, j, hd⟩ := exists_of_pack hp
  have hnumber : d'.number = d.number := by rw [hd]
  refine ⟨h.isFit.pack hp, _, hps.pack hl hp, ?_⟩
  rw [hnumber, List.map_append, List.map_singleton]

def ReadAs (d : DraftBlock) (b : LoadedBlock) : Prop :=
  ∃ verify address, LoadedBlock.decode verify address d.encodeAsIs.2 = .ok b

theorem Keeps.decode (h : d.Keeps layout session qs) (verify : Bool) (address : Nat) :
    ∃ b, LoadedBlock.decode verify address d.encodeAsIs.2 = .ok b ∧ b.layout = d.layout ∧
      (d.layout = .bb01 ∨ b.session = d.session) ∧ b.number = d.number ∧ b.rest = d.payload := by
  obtain ⟨ps, hps, -⟩ := h.pieces
  refine decode_encodeAsIs h.isFit.options ?_ verify address
  exact Nat.le_trans (Nat.add_le_add_left hps.used _) h.isFit.bound

theorem Keeps.unpackAll (h : d.Keeps layout session qs) {b : LoadedBlock} (hb : d.ReadAs b)
    (a : Assembler) : a.unpackAll b = a.meetAll (fun _ => true) qs := by
  obtain ⟨verify, address, hb⟩ := hb
  obtain ⟨c, hc, hlayout, hsession, hnumber, hrest⟩ := h.decode verify address
  obtain rfl : b = c := Except.ok.inj (hb.symm.trans hc)
  obtain ⟨ps, hps, rfl⟩ := h.pieces
  rw [hps.unpackAll hlayout hsession hrest, Assembler.meetAll_block a rfl, hnumber]
  simp

end DraftBlock

namespace Filling
variable {layout : HeaderLayout} {session : Session} {f : Filling} {qs : List Placed}

def Keeps (layout : HeaderLayout) (session : Session) (f : Filling) (qs : List Placed) : Prop :=
  ∃ before last, List.Forall₂ (DraftBlock.Keeps layout session) f.behind before ∧
    f.current.Keeps layout session last ∧ before.flatten ++ last = qs

theorem Keeps.drafts (h : f.Keeps layout session qs) :
    ∃ parts, List.Forall₂ (DraftBlock.Keeps layout session) f.drafts parts ∧
      parts.flatten = qs := by
  obtain ⟨before, last, hbefore, hlast, rfl⟩ := h
  refine ⟨before ++ [last], List.rel_append hbefore (.cons hlast .nil), ?_⟩
  rw [List.flatten_append, List.flatten_singleton]

theorem Keeps.of_mem_drafts (h : f.Keeps layout session qs) {d : DraftBlock} (hd : d ∈ f.drafts) :
    ∃ ps, d.Keeps layout session ps := by
  obtain ⟨parts, hparts, -⟩ := h.drafts
  have hall : ∀ e ∈ f.drafts, ∃ ps, DraftBlock.Keeps layout session e ps :=
    ((List.forall₂_and_left _ _).mp (hparts.imp fun e ps he => ⟨⟨ps, he⟩, he⟩)).1
  exact hall d hd

variable (blank : Nat → BlankBlock layout session)

theorem keeps_start : (start blank).Keeps layout session [] :=
  ⟨[], [], .nil, DraftBlock.keeps_blank (blank 0), rfl⟩

theorem Keeps.turn (h : f.Keeps layout session qs) : (f.turn blank).Keeps layout session qs := by
  obtain ⟨parts, hparts, rfl⟩ := h.drafts
  exact ⟨parts, [], hparts, DraftBlock.keeps_blank _, List.append_nil _⟩

theorem Keeps.pack (h : f.Keeps layout session qs) {o left : Outstanding} {d : DraftBlock}
    (hl : o.rest.length < 2 ^ 32) (hp : f.current.pack o = some (d, left)) :
    Keeps layout session { f with current := d }
      (qs ++ [⟨f.current.number.toNat, f.current.nextPiece o⟩]) := by
  obtain ⟨before, last, hbefore, hlast, rfl⟩ := h
  exact ⟨before, _, hbefore, hlast.pack hl hp, (List.append_assoc ..).symm⟩

theorem Keeps.isFit (h : f.Keeps layout session qs) : f.current.IsFit layout session := by
  obtain ⟨before, last, -, hlast, -⟩ := h
  exact hlast.isFit

/-- A record is packed into one block or cut, and its pieces lie behind all that were there. -/
theorem Keeps.store (h : f.Keeps layout session qs) {o : Outstanding} (hl : o.rest.length < 2 ^ 32) :
    ∃ g ps, f.store blank o = some g ∧ g.Keeps layout session (qs ++ ps) ∧ o.Cut session ps := by
  -- the session of the block at hand is that of all blocks, also where it is left for the next one
  fun_induction Filling.store blank f o generalizing qs with
  | case1 f o d left packed done =>
    have hcut := DraftBlock.cut_of_complete packed f.current.number.toNat done
    rw [h.isFit.session] at hcut
    exact ⟨_, _, rfl, h.pack hl packed, hcut⟩
  | case2 f o d left packed unfinished ih =>
    have hless := Nat.lt_of_le_of_lt (DraftBlock.length_left_of_pack packed) hl
    obtain ⟨g, ps, hg, hkeeps, hcut⟩ := ih ((h.pack hl packed).turn blank) hless
    rw [← h.isFit.session] at hcut
    have hwhole := DraftBlock.cut_of_unfinished packed f.current.number.toNat unfinished hcut
    rw [h.isFit.session] at hwhole
    rw [List.append_assoc, List.singleton_append] at hkeeps
    exact ⟨g, _, hg, hkeeps, hwhole⟩
  | case3 f o packed empty =>
    exact absurd packed (DraftBlock.exists_pack_of_isEmpty empty h.isFit.room o)
  | case4 f o packed unfilled ih => exact ih (h.turn blank) hl

/-- Any records that can be told from later pieces are packed, wherever blocks are left. -/
theorem Keeps.perform (h : f.Keeps layout session qs) {steps : List WriterStep}
    (hr : ∀ r ∈ WriterStep.records steps, 0 < r.tag.raw ∧ r.payload.length < 2 ^ 32) :
    ∃ g, ∃ placements : List Placement, f.perform blank steps = some g ∧
      g.Keeps layout session (qs ++ placements.flatMap Placement.pieces) ∧
      placements.map Placement.record = WriterStep.records steps ∧
      ∀ p ∈ placements, p.IsSound session := by
  induction steps generalizing f qs with
  | nil => exact ⟨f, [], rfl, by simpa using h, rfl, by simp⟩
  | cons step steps ih =>
    cases step with
    | record r =>
      obtain ⟨ht, hl⟩ := hr r (by simp)
      obtain ⟨g, ps, hg, hkeeps, hcut⟩ := h.store blank (o := .whole r) hl
      obtain ⟨k, placements, hk, hall, hrecords, hsound⟩ :=
        ih hkeeps fun x hx => hr x (by simp [hx])
      refine ⟨k, ⟨r, ps⟩ :: placements, ?_, ?_, ?_, ?_⟩
      · simp only [Filling.perform, hg, hk]
      · simpa using hall
      · simp [hrecords]
      · intro p hp
        rcases List.mem_cons.mp hp with rfl | hp
        · exact ⟨hcut, ht, hl⟩
        · exact hsound p hp
    | flush =>
      obtain ⟨k, placements, hk, hall, hrecords, hsound⟩ := ih (h.turn blank) hr
      exact ⟨k, placements, hk, hall, hrecords, hsound⟩

theorem answers_keeps {drafts : List DraftBlock} {parts : List (List Placed)}
    (h : List.Forall₂ (DraftBlock.Keeps layout session) drafts parts) {loaded : List LoadedBlock}
    (hloaded : List.Forall₂ DraftBlock.ReadAs drafts loaded) (a : Assembler) (i : Nat) :
    (a.callsFrom i loaded).1 = (a.meetAll (fun _ => true) parts.flatten).1 ∧
      Call.answers (a.callsFrom i loaded).2 = (a.meetAll (fun _ => true) parts.flatten).2 := by
  induction h generalizing loaded a i with
  | nil =>
    cases hloaded
    exact ⟨rfl, rfl⟩
  | @cons d qs drafts parts hd _ ih =>
    cases hloaded with
    | @cons _ b _ bs hb hbs =>
      have hread := hd.unpackAll hb a
      obtain ⟨hstate, hanswers⟩ := ih hbs (a.unpackAll b).1 (i + 1)
      rw [List.flatten_cons, Assembler.meetAll_append, ← hread, Assembler.answers_callsFrom_cons]
      refine ⟨?_, congrArg _ hanswers⟩
      rw [← hstate, ← (a.answers_callsOn i b).1]
      rfl

/-- Whatever the layout, the room in each block, and the places where blocks are left: records with
positive tags are packed, all blocks can be read when they have been stored, and an assembler that
reads them in their order hands out exactly these records in the session of the blocks. -/
theorem reads_packed {layout : HeaderLayout} {session : Session}
    (blank : Nat → BlankBlock layout session) {steps : List WriterStep}
    (hr : ∀ r ∈ WriterStep.records steps, 0 < r.tag.raw ∧ r.payload.length < 2 ^ 32) :
    ∃ f, perform blank (start blank) steps = some f ∧
      (∀ d ∈ f.drafts, ∀ verify address,
        ∃ b, LoadedBlock.decode verify address d.encodeAsIs.2 = .ok b) ∧
      ∀ loaded, List.Forall₂ DraftBlock.ReadAs f.drafts loaded →
        (Assembler.calls loaded).1 = { records := (WriterStep.records steps).length } ∧
        ∃ found : List Record, Call.answers (Assembler.calls loaded).2 = found.map .ok ∧
          found.map Record.unplaced
            = (WriterStep.records steps).map fun r => (r.inSession session).unplaced := by
  obtain ⟨f, placements, hf, hkeeps, hrecords, hsound⟩ := (keeps_start blank).perform blank hr
  obtain ⟨parts, hparts, hflatten⟩ := hkeeps.drafts
  rw [List.nil_append] at hflatten
  refine ⟨f, hf, ?_, ?_⟩
  · intro d hd verify address
    obtain ⟨qs, hkept⟩ := hkeeps.of_mem_drafts hd
    obtain ⟨b, hb, -⟩ := hkept.decode verify address
    exact ⟨b, hb⟩
  · intro loaded hloaded
    obtain ⟨hstate, hanswers⟩ := answers_keeps hparts hloaded {} 0
    have hmeet := Assembler.meetAll_kept (fun _ => true) (a := {}) hsound
      (fun p _ => List.all_eq_true.mpr fun _ _ => rfl) rfl
    rw [hflatten, hmeet] at hstate hanswers
    refine ⟨?_, _, hanswers, ?_⟩
    · rw [Assembler.calls, hstate, ← hrecords, List.length_map]
      simp
    · rw [← hrecords, List.map_map, List.map_map]
      rfl

/-- Blocks of the first layout with room for one, two or three octets of a record. -/
def narrowBlock (i : Nat) : BlankBlock .bb01 ⟨7, 9⟩ where
  draft := { capacity := 21 + i % 3, session := ⟨7, 9⟩, layout := .bb01, number := i.toUInt32 }
  isEmpty := rfl
  isFit :=
    { layout := rfl
      session := rfl
      room := by
        change 20 < 21 + i % 3
        omega
      options := .inl rfl
      bound := by
        change 16 + (21 + i % 3) ≤ 20000000
        omega }

/-- Of two records the first one is cut into three pieces, and the second one is kept out of the
block in which that ends. -/
theorem reads_packed_narrow :
    let steps : List WriterStep :=
      [.record ⟨1, ⟨2⟩, [1, 2, 3, 4], {}, 0⟩, .flush, .record ⟨2, ⟨3⟩, [], {}, 0⟩]
    (∀ r ∈ WriterStep.records steps, 0 < r.tag.raw ∧ r.payload.length < 2 ^ 32) ∧
    ∃ f, perform narrowBlock (start narrowBlock) steps = some f ∧ f.drafts.length = 4 ∧
      ∀ loaded, List.Forall₂ DraftBlock.ReadAs f.drafts loaded →
        ∃ found : List Record, Call.answers (Assembler.calls loaded).2 = found.map .ok ∧
          found.map Record.unplaced
            = [⟨1, ⟨2⟩, [1, 2, 3, 4], ⟨7, 9⟩, 0⟩, ⟨2, ⟨3⟩, [], ⟨7, 9⟩, 0⟩] := by
  intro steps
  have hr : ∀ r ∈ WriterStep.records steps, 0 < r.tag.raw ∧ r.payload.length < 2 ^ 32 := by decide
  have hcount : (perform narrowBlock (start narrowBlock) steps).map (fun f => f.drafts.length)
      = some 4 := by decide +kernel
  obtain ⟨f, hf, -, hread⟩ := reads_packed narrowBlock hr
  refine ⟨hr, f, hf, ?_, fun loaded hloaded => (hread loaded hloaded).2⟩
  rw [hf] at hcount
  exact Option.some.inj hcount

end Filling
end BackupVolume
