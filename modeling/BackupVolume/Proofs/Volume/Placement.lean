import BackupVolume.Proofs.Volume.Storing

/-! # Where records lie

A writer lays down one record after another, each in pieces of its own. An assembler that takes the
pieces of a volume finds exactly the records that have no piece in a lost block.
-/
namespace BackupVolume

namespace Record

def inSession (session : Session) (r : Record) : Record := { r with session }

def unplaced (r : Record) : Record := { r with blockNumber := 0 }

end Record

structure Placement where
  record : Record
  pieces : List Placed

namespace Placement

/-- No piece of the record lies in a lost block. -/
def survives (kept : Nat → Bool) (p : Placement) : Bool := p.pieces.all fun q => kept q.block

/-- The record as it is found again: it is of the session of the volume, and it starts in the block
of its first piece. -/
def found (session : Session) (p : Placement) : Record :=
  { p.record with session, blockNumber := ((p.pieces.map Placed.block).headD 0).toUInt32 }

theorem unplaced_found (session : Session) (p : Placement) :
    (p.found session).unplaced = (p.record.inSession session).unplaced := rfl

/-- A record that can be told from a later piece of another one, cut into its pieces. -/
structure IsSound (session : Session) (p : Placement) : Prop where
  cut : (Outstanding.whole p.record).Cut session p.pieces
  tag : 0 < p.record.tag.raw
  length : p.record.payload.length < 2 ^ 32

end Placement

namespace Assembler
variable (kept : Nat → Bool) {session : Session} {a : Assembler}

theorem meetAll_placement {p : Placement} (hp : p.IsSound session) (ha : a.pending = none) :
    if p.survives kept then
      a.meetAll kept p.pieces = ({ a with records := a.records + 1 }, [.ok (p.found session)])
    else (a.meetAll kept p.pieces).1.pending = none ∧ (a.meetAll kept p.pieces).2 = [] :=
  meetAll_whole kept hp.cut rfl hp.tag hp.length ha

/-- Records that have no piece in a lost block are found, and no others. -/
theorem meetAll_placements {ps : List Placement} (hp : ∀ p ∈ ps, p.IsSound session)
    (ha : a.pending = none) :
    (a.meetAll kept (ps.flatMap Placement.pieces)).1.pending = none ∧
      (a.meetAll kept (ps.flatMap Placement.pieces)).2
        = ((ps.filter (Placement.survives kept)).map (Placement.found session)).map .ok := by
  induction ps generalizing a with
  | nil => exact ⟨ha, rfl⟩
  | cons p ps ih =>
    have hfirst := meetAll_placement kept (hp p (by simp)) ha
    have hrest {c : Assembler} (hc : c.pending = none) := ih (fun q hq => hp q (by simp [hq])) hc
    rw [List.flatMap_cons, meetAll_append]
    by_cases hs : p.survives kept = true
    · rw [if_pos hs] at hfirst
      obtain ⟨hpending, hfound⟩ := hrest (c := { a with records := a.records + 1 }) ha
      rw [hfirst, List.filter_cons_of_pos hs]
      exact ⟨hpending, by simp [hfound]⟩
    · rw [if_neg hs] at hfirst
      obtain ⟨hpending, hfound⟩ := hrest hfirst.1
      rw [hfirst.2, List.filter_cons_of_neg hs]
      exact ⟨hpending, by simp [hfound]⟩

/-- Where no block is lost every record is found, and nothing else happens. -/
theorem meetAll_kept {ps : List Placement} (hp : ∀ p ∈ ps, p.IsSound session)
    (hk : ∀ p ∈ ps, p.survives kept = true) (ha : a.pending = none) :
    a.meetAll kept (ps.flatMap Placement.pieces)
      = ({ a with records := a.records + ps.length },
        (ps.map (Placement.found session)).map .ok) := by
  induction ps generalizing a with
  | nil => rfl
  | cons p ps ih =>
    have hfirst := meetAll_placement kept (hp p (by simp)) ha
    rw [if_pos (hk p (by simp))] at hfirst
    have hrest := ih (fun q hq => hp q (by simp [hq])) (fun q hq => hk q (by simp [hq]))
      (a := { a with records := a.records + 1 }) ha
    rw [List.flatMap_cons, meetAll_append, hfirst, hrest]
    simp [Nat.add_assoc, Nat.add_comm 1]

end Assembler

inductive WriterStep where
  | record (r : Record)
  | flush

namespace WriterStep

def records (steps : List WriterStep) : List Record :=
  steps.filterMap fun
    | .record r => some r
    | .flush => none

@[simp] theorem records_record (r : Record) (steps : List WriterStep) :
    records (.record r :: steps) = r :: records steps := rfl

@[simp] theorem records_flush (steps : List WriterStep) :
    records (.flush :: steps) = records steps := rfl

theorem records_map_record (rs : List Record) : records (rs.map .record) = rs := by
  induction rs with
  | nil => rfl
  | cons r rs ih => rw [List.map_cons, records_record, ih]

theorem records_append (xs ys : List WriterStep) : records (xs ++ ys) = records xs ++ records ys :=
  List.filterMap_append

end WriterStep

namespace VolumeWriter
variable {κ : Type} [BlockSink κ]

def perform (w : VolumeWriter κ) : List WriterStep → VolumeWriter κ × Except Failure Unit
  | [] => (w, .ok ())
  | .record r :: steps =>
    match w.writeRecord r with
    | (w, _, .ok ()) => perform w steps
    | (w, _, .error e) => (w, .error e)
  | .flush :: steps =>
    match w.flush with
    | (w, .ok ()) => perform w steps
    | (w, .error e) => (w, .error e)

theorem perform_append {w v : VolumeWriter κ} {steps : List WriterStep}
    (h : w.perform steps = (v, .ok ())) (more : List WriterStep) :
    w.perform (steps ++ more) = v.perform more := by
  induction steps generalizing w with
  | nil =>
    simp only [perform, Prod.mk.injEq, and_true] at h
    rw [List.nil_append, h]
  | cons step steps ih =>
    cases step with
    | record r =>
      simp only [List.cons_append, perform] at h ⊢
      rcases hw : w.writeRecord r with ⟨u, left, e | ⟨⟨⟩⟩⟩
      · simp [hw] at h
      · simp only [hw] at h ⊢
        exact ih h
    | flush =>
      simp only [List.cons_append, perform] at h ⊢
      rcases hw : w.flush with ⟨u, e | ⟨⟨⟩⟩⟩
      · simp [hw] at h
      · simp only [hw] at h ⊢
        exact ih h

theorem perform_append_of_error {w v : VolumeWriter κ} {steps : List WriterStep} {e : Failure}
    (h : w.perform steps = (v, .error e)) (more : List WriterStep) :
    w.perform (steps ++ more) = (v, .error e) := by
  induction steps generalizing w with
  | nil => cases h
  | cons step steps ih =>
    cases step with
    | record r =>
      simp only [List.cons_append, perform] at h ⊢
      rcases hw : w.writeRecord r with ⟨u, left, x | ⟨⟨⟩⟩⟩
      · simpa only [hw] using h
      · simp only [hw] at h ⊢
        exact ih h
    | flush =>
      simp only [List.cons_append, perform] at h ⊢
      rcases hw : w.flush with ⟨u, x | ⟨⟨⟩⟩⟩
      · simpa only [hw] using h
      · simp only [hw] at h ⊢
        exact ih h

def placements (w : VolumeWriter κ) : List WriterStep → List Placement
  | [] => []
  | .record r :: steps => ⟨r, w.placed (.whole r)⟩ :: (w.writeRecord r).1.placements steps
  | .flush :: steps => w.flush.1.placements steps

theorem map_record_placements (w : VolumeWriter κ) (steps : List WriterStep) :
    (w.placements steps).map Placement.record = WriterStep.records steps := by
  induction steps generalizing w with
  | nil => rfl
  | cons step steps ih =>
    cases step with
    | record r => simp [placements, ih]
    | flush => exact ih w.flush.1

namespace Holds
variable {sink : κ} {key : Option VolumeKey} {session : Session} {w : VolumeWriter κ}
  {qs : List Placed}

/-- A record is laid down behind all that was there. -/
theorem writeRecord (hs : BlockSink.AcceptsAll sink) (h : Holds sink key session w qs) {r : Record}
    (ht : 0 < r.tag.raw) (hl : r.payload.length < 2 ^ 32) :
    ∃ v left, w.writeRecord r = (v, left, .ok ()) ∧
      Holds sink key session v (qs ++ w.placed (.whole r)) ∧
      Placement.IsSound session ⟨r, w.placed (.whole r)⟩ := by
  obtain ⟨v, left, hv, hheld, hcut⟩ := h.store hs (o := .whole r) hl
  exact ⟨v, left, hv, hheld, hcut, ht, hl⟩

/-- All steps succeed, and lay down their records one behind another. -/
theorem perform (hs : BlockSink.AcceptsAll sink) (h : Holds sink key session w qs)
    {steps : List WriterStep}
    (hr : ∀ r ∈ WriterStep.records steps, 0 < r.tag.raw ∧ r.payload.length < 2 ^ 32) :
    ∃ v, w.perform steps = (v, .ok ()) ∧
      Holds sink key session v (qs ++ (w.placements steps).flatMap Placement.pieces) ∧
      ∀ p ∈ w.placements steps, p.IsSound session := by
  induction steps generalizing w qs with
  | nil => exact ⟨w, rfl, by simpa [placements] using h, by simp [placements]⟩
  | cons step steps ih =>
    cases step with
    | record r =>
      obtain ⟨ht, hl⟩ := hr r (by simp)
      obtain ⟨v, left, hv, hheld, hsound⟩ := h.writeRecord hs ht hl
      obtain ⟨u, hu, hall, hsounds⟩ := ih hheld (fun x hx => hr x (by simp [hx]))
      refine ⟨u, by simp only [VolumeWriter.perform, hv, hu], ?_, ?_⟩
      · simpa [placements, hv] using hall
      · intro p hp
        simp only [placements, hv, List.mem_cons] at hp
        rcases hp with rfl | hp
        · exact hsound
        · exact hsounds p hp
    | flush =>
      obtain ⟨v, hv, hheld⟩ := h.flush hs
      obtain ⟨u, hu, hall, hsounds⟩ := ih hheld (fun x hx => hr x (by simpa using hx))
      refine ⟨u, by simp only [VolumeWriter.perform, hv, hu], ?_, ?_⟩
      · simpa [placements, hv] using hall
      · simpa [placements, hv] using hsounds

/-- Once the block that was being filled is flushed, the sink has everything. -/
theorem closed (hs : BlockSink.AcceptsAll sink) (h : Holds sink key session w qs) :
    ∃ v blocks, w.flush = (v, .ok ()) ∧ v.sink = (BlockSink.writeAll sink blocks).1 ∧
      v.blocksWritten = blocks.length ∧ ShowAll key 0 blocks qs := by
  obtain ⟨blocks, laid, filled, hw, rfl⟩ := h
  obtain ⟨v, blocks', laid', hv, hw', rfl⟩ := hw.flush hs
  exact ⟨v, blocks', hv, hw'.handed, hw'.written, hw'.shown⟩

end Holds

theorem holds_create (sink : κ) {blockSize : Nat} (hb : blockSize ≤ maxBlockLength)
    (session : Session) (checksums : Bool) (key : Option VolumeKey) (nonce : Nonce) :
    Holds sink key session (create sink blockSize session checksums key nonce) [] :=
  ⟨[], [], [], ⟨isSound_create sink hb session checksums key nonce, rfl, rfl, rfl, .nil 0, rfl, rfl,
    rfl, by simp, by simp, .inl (by simp)⟩, rfl⟩

/-- What a new writer is given is on the volume when it has been flushed. -/
theorem perform_create {sink : κ} (hs : BlockSink.AcceptsAll sink) {blockSize : Nat}
    (hb : blockSize ≤ maxBlockLength) (session : Session) (checksums : Bool)
    (key : Option VolumeKey) (nonce : Nonce) {steps : List WriterStep}
    (hr : ∀ r ∈ WriterStep.records steps, 0 < r.tag.raw ∧ r.payload.length < 2 ^ 32) :
    ∃ w blocks,
      (create sink blockSize session checksums key nonce).perform (steps ++ [.flush])
        = (w, .ok ()) ∧
      w.sink = (BlockSink.writeAll sink blocks).1 ∧
      ShowAll key 0 blocks (((create sink blockSize session checksums key nonce).placements
        steps).flatMap Placement.pieces) ∧
      ∀ p ∈ (create sink blockSize session checksums key nonce).placements steps,
        p.IsSound session := by
  have hnew := holds_create sink hb session checksums key nonce
  obtain ⟨w, hw, hheld, hsound⟩ := hnew.perform hs hr
  obtain ⟨v, blocks, hv, hsink, -, hshown⟩ := hheld.closed hs
  refine ⟨v, blocks, ?_, hsink, hshown, hsound⟩
  rw [perform_append hw, perform, hv]
  rfl

end VolumeWriter
end BackupVolume
