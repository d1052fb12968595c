import BackupVolume.Proofs.Compression.Unpacking
import BackupVolume.Proofs.Stream.Modifiers

/-! # The stages of decoding

A call of a decoder puts a deduplicated payload together or abandons the record, treats the payload
as the kind of the stream asks for, and tells a failure of the record alone as a fault. Each stage
is told here by what it answers and by what it leaves of the decoder.
-/
namespace BackupVolume.Decoder
open Compression
variable {d : Decoder} {r s : Record} {e : Failure} {x : RehydrationError} {action : Action}

/-- The payload of a deduplicated record cannot be put together, and the decoder does not go on with
what could be recovered of it. -/
def Abandons (d : Decoder) (r : Record) (x : RehydrationError) : Prop :=
  r.tag.isDedup = true ∧ d.rehydrator r = .error x ∧ (d.proceed = false ∨ ∃ m, x = .fatal m)

/-- The record `r` is treated as `s`: as it is, or with the payload that was put together or
recovered in part. -/
def Takes (d : Decoder) (r s : Record) : Prop :=
  if r.tag.isDedup then
    ∃ payload, s = { r with payload, tag := r.tag.withoutDedup } ∧
      (d.rehydrator r = .ok payload ∨
        d.proceed = true ∧ ∃ m, d.rehydrator r = .error (.recoverable m payload))
  else s = r

def damage (d : Decoder) (r : Record) : Nat :=
  if r.tag.isDedup then
    match d.rehydrator r with
    | .error (.recoverable ..) => 1
    | _ => 0
  else 0

def faults : Except Failure Action → Nat
  | .ok (.fault _) => 1
  | _ => 0

theorem Takes.place (h : d.Takes r s) : s.fileIndex = r.fileIndex ∧ s.blockNumber = r.blockNumber := by
  unfold Takes at h
  split at h
  · obtain ⟨payload, rfl, -⟩ := h
    exact ⟨rfl, rfl⟩
  · rw [h]
    exact ⟨rfl, rfl⟩

theorem Takes.eq {t : Record} (h : d.Takes r s) (h' : d.Takes r t) : s = t := by
  unfold Takes at h h'
  split at h
  · next hdedup =>
    rw [if_pos hdedup] at h'
    obtain ⟨p, rfl, hp⟩ := h
    obtain ⟨q, rfl, hq⟩ := h'
    have hsame : p = q := by
      rcases hp with hp | ⟨-, m, hp⟩ <;> rcases hq with hq | ⟨-, n, hq⟩ <;> rw [hp] at hq <;>
        cases hq <;> rfl
    rw [hsame]
  · next hdedup =>
    rw [if_neg hdedup] at h'
    rw [h, h']

theorem Takes.not_abandons (h : d.Takes r s) : ¬d.Abandons r x := by
  rintro ⟨hdedup, hx, hreason⟩
  unfold Takes at h
  rw [if_pos hdedup] at h
  obtain ⟨payload, -, hwhole | ⟨hproceed, m, hpart⟩⟩ := h
  · rw [hx] at hwhole
    cases hwhole
  · rw [hx] at hpart
    cases hpart
    rcases hreason with hreason | ⟨n, hreason⟩
    · rw [hproceed] at hreason
      cases hreason
    · cases hreason

/-- Putting a payload together does not change how it is treated. -/
theorem Takes.treatment?_eq (h : d.Takes r s) : s.tag.treatment? = r.tag.treatment? := by
  unfold Takes at h
  split at h
  · next hdedup =>
    obtain ⟨payload, rfl, -⟩ := h
    rw [StreamTag.isDedup, Bool.and_eq_true] at hdedup
    exact StreamTag.treatment?_withoutDedup (of_decide_eq_true hdedup.1)
  · rw [h]

/-- A payload is put together or recovered, or the record is abandoned. -/
theorem rehydrate_cases (d : Decoder) (r : Record) :
    ∃ stats : DecoderStats, stats.records = d.stats.records ∧
      stats.errors = d.stats.errors + d.damage r ∧ stats.unsupported = d.stats.unsupported ∧
      ((∃ x, d.Abandons r x ∧ d.rehydrate r = ({ d with stats }, .error (.rehydration x))) ∨
        ∃ s, d.Takes r s ∧ d.rehydrate r = ({ d with stats }, .ok s)) := by
  unfold rehydrate Abandons Takes damage
  by_cases hdedup : r.tag.isDedup = true
  · simp only [hdedup, Bool.not_true, Bool.false_eq_true, if_false, if_true, true_and]
    rcases hr : d.rehydrator r with (m | ⟨m, recovered⟩) | payload
    · exact ⟨d.stats, rfl, rfl, rfl, .inl ⟨_, ⟨rfl, .inr ⟨m, rfl⟩⟩, rfl⟩⟩
    · cases hp : d.proceed with
      | true =>
        refine ⟨{ d.stats with
          rehydrated := d.stats.rehydrated + 1
          errors := d.stats.errors + 1 }, rfl, rfl, rfl, .inr ⟨_, ⟨_, rfl, .inr ⟨rfl, m, rfl⟩⟩, ?_⟩⟩
        simp [hp, rehydrated, noteError]
      | false =>
        refine ⟨{ d.stats with errors := d.stats.errors + 1 }, rfl, rfl, rfl,
          .inl ⟨_, ⟨rfl, .inl rfl⟩, ?_⟩⟩
        simp [hp, noteError]
    · exact ⟨{ d.stats with rehydrated := d.stats.rehydrated + 1 }, rfl, rfl, rfl,
        .inr ⟨_, ⟨payload, rfl, .inl rfl⟩, rfl⟩⟩
  · simp only [hdedup, Bool.not_false, if_true]
    exact ⟨d.stats, rfl, rfl, rfl, .inr ⟨r, rfl, rfl⟩⟩

theorem decompress_leaves (d : Decoder) (s : Record)
    {unpack : Bytes → Scratch → Except CodecError Bytes × Scratch}
    (hunpack : ∀ packed (room : Scratch), room.Grows (unpack packed room).2) :
    ∃ scratch inflated, d.scratch.Grows scratch ∧
      (d.decompress s unpack).1 = { d with scratch, stats := { d.stats with inflated } } := by
  unfold decompress
  rcases s.splitAddress with e | ⟨address, packed⟩
  · exact ⟨_, _, .refl _, rfl⟩
  · have hgrows := hunpack packed d.scratch
    dsimp only
    split
    · next h =>
      rw [h] at hgrows
      exact ⟨_, _, hgrows, rfl⟩
    · next h =>
      rw [h] at hgrows
      exact ⟨_, _, hgrows, rfl⟩

/-- Treating a record may make the room grow, and counts what was decompressed and what is not
supported. -/
theorem treat_leaves (d : Decoder) (s : Record) : ∃ scratch inflated, d.scratch.Grows scratch ∧
    (d.treat s).1 = { d with
      scratch
      stats := { d.stats with
        inflated
        unsupported := d.stats.unsupported + if s.tag.treatment? = none then 1 else 0 } } := by
  unfold treat StreamTag.treatment?
  split
  · next hkind =>
    rw [hkind]
    split <;> exact ⟨_, _, .refl _, rfl⟩
  · next hkind =>
    rw [hkind]
    split <;> exact ⟨_, _, .refl _, rfl⟩
  · next hkind =>
    rw [hkind]
    exact d.decompress_leaves s fun packed room => room.grows_fit _
  · next hkind =>
    rw [hkind]
    exact d.decompress_leaves s d.codecs.grows_unwrap
  · next hkind =>
    rw [hkind]
    exact ⟨_, _, .refl _, rfl⟩
  · next hkind =>
    rw [hkind]
    exact ⟨_, _, .refl _, rfl⟩

theorem exists_write_of_decompress {unpack : Bytes → Scratch → Except CodecError Bytes × Scratch}
    (h : (d.decompress s unpack).2 = .ok action) : ∃ address data, action = .write address data := by
  unfold decompress at h
  split at h
  · cases h
  · split at h <;> cases h
    exact ⟨_, _, rfl⟩

theorem treat_ok (h : (d.treat s).2 = .ok action) :
    (s.tag.treatment? = some .attributes ∧ ∃ a, action = .attributes a) ∨
      ((s.tag.treatment? = some .plain ∨ s.tag.treatment? = some .inflate ∨
        s.tag.treatment? = some .unwrap) ∧ ∃ address data, action = .write address data) ∨
      action = .nothing := by
  unfold treat at h
  split at h
  · next hkind =>
    split at h <;> cases h
    exact .inl ⟨hkind, _, rfl⟩
  · next hkind =>
    split at h <;> cases h
    exact .inr (.inl ⟨.inl hkind, _, _, rfl⟩)
  · next hkind => exact .inr (.inl ⟨.inr (.inl hkind), exists_write_of_decompress h⟩)
  · next hkind => exact .inr (.inl ⟨.inr (.inr hkind), exists_write_of_decompress h⟩)
  · cases h
    exact .inr (.inr rfl)
  · cases h
    exact .inr (.inr rfl)

theorem treat_ne_fault (d : Decoder) (s : Record) (f : RecordFault) :
    (d.treat s).2 ≠ .ok (.fault f) := by
  intro h
  rcases treat_ok h with ⟨-, _, hother⟩ | ⟨-, _, _, hother⟩ | hother <;> cases hother

/-- What treating a record as `s` leads to: a failure of the record alone is told as a fault. -/
def conclude (s : Record) : Decoder × Except Failure Action → Decoder × Except Failure Action
  | (e, .ok action) => (e, .ok action)
  | (e, .error x) =>
    if x.scope = .record then (e.noteError, .ok (.fault ⟨s.fileIndex, s.tag, s.blockNumber, x⟩))
    else (e, .error x)

section Conclusion
variable {t : Decoder × Except Failure Action}

theorem conclude_ok (h : t.2 = .ok action) : (conclude s t).2 = .ok action := by
  rcases t with ⟨f, x | action⟩
  · cases h
  · exact h

/-- An answer that is no fault is what the record was treated to. -/
theorem of_conclude_ok (h : (conclude s t).2 = .ok action) (hf : ∀ f, action ≠ .fault f) :
    t.2 = .ok action := by
  rcases t with ⟨d, x | given⟩
  · by_cases hx : x.scope = .record
    · simp only [conclude, if_pos hx] at h
      cases h
      exact absurd rfl (hf _)
    · simp only [conclude, if_neg hx] at h
      cases h
  · exact h

theorem conclude_error_iff : (conclude s t).2 = .error e ↔ t.2 = .error e ∧ e.scope ≠ .record := by
  rcases t with ⟨f, x | action⟩
  · by_cases hx : x.scope = .record
    · simp only [conclude, if_pos hx]
      constructor
      · rintro ⟨⟩
      · rintro ⟨⟨⟩, hne⟩
        exact absurd hx hne
    · simp only [conclude, if_neg hx]
      constructor
      · rintro ⟨⟩
        exact ⟨rfl, hx⟩
      · exact And.left
  · simp [conclude]

theorem conclude_fault_iff (h : ∀ f, t.2 ≠ .ok (.fault f)) {f : RecordFault} :
    (conclude s t).2 = .ok (.fault f) ↔ ∃ x : Failure, t.2 = .error x ∧ x.scope = .record ∧
      f = ⟨s.fileIndex, s.tag, s.blockNumber, x⟩ := by
  rcases t with ⟨d, x | action⟩
  · by_cases hx : x.scope = .record
    · simp only [conclude, if_pos hx]
      constructor
      · rintro ⟨⟩
        exact ⟨x, rfl, hx, rfl⟩
      · rintro ⟨y, hy, -, rfl⟩
        cases hy
        rfl
    · simp only [conclude, if_neg hx]
      constructor
      · rintro ⟨⟩
      · rintro ⟨y, hy, hscope, -⟩
        cases hy
        exact absurd hscope hx
  · constructor
    · intro hf
      exact absurd hf (h f)
    · rintro ⟨x, hx, -⟩
      cases hx

/-- A fault is counted as an error, and nothing else is counted. -/
theorem conclude_leaves (h : ∀ f, t.2 ≠ .ok (.fault f)) : (conclude s t).1 =
    { t.1 with stats := { t.1.stats with
      errors := t.1.stats.errors + faults (conclude s t).2 } } := by
  rcases t with ⟨d, x | action⟩
  · by_cases hx : x.scope = .record
    · simp only [conclude, if_pos hx]
      rfl
    · simp only [conclude, if_neg hx]
      rfl
  · cases action with
    | fault f => exact absurd rfl (h f)
    | attributes a => rfl
    | write address data => rfl
    | nothing => rfl

end Conclusion

/-- Every call counts a record, and the record is abandoned or treated. -/
theorem decode_cases (d : Decoder) (r : Record) :
    ∃ stats : DecoderStats, stats.records = d.stats.records + 1 ∧
      stats.errors = d.stats.errors + d.damage r ∧ stats.unsupported = d.stats.unsupported ∧
      ((∃ x, d.Abandons r x ∧ d.decode r = ({ d with stats }, .error (.rehydration x))) ∨
        ∃ s, d.Takes r s ∧ d.decode r = conclude s (treat { d with stats } s)) := by
  obtain ⟨stats, hrecords, herrors, hunsupported, hcases⟩ := rehydrate_cases
    { d with stats := { d.stats with records := d.stats.records + 1 } } r
  refine ⟨stats, hrecords, herrors, hunsupported, ?_⟩
  rcases hcases with ⟨x, hx, hre⟩ | ⟨s, hs, hre⟩
  · refine .inl ⟨x, hx, ?_⟩
    simp only [decode, hre]
  · refine .inr ⟨s, hs, ?_⟩
    simp only [decode, hre]
    rcases treat { d with stats } s with ⟨f, y | action⟩ <;> rfl

/-- What is counted as errors: payloads that were damaged, and faults. -/
theorem errors_decode (d : Decoder) (r : Record) : (d.decode r).1.stats.errors
    = d.stats.errors + d.damage r + faults (d.decode r).2 := by
  obtain ⟨stats, -, herrors, -, ⟨x, -, hd⟩ | ⟨s, -, hd⟩⟩ := d.decode_cases r
  · rw [hd]
    exact herrors
  · obtain ⟨scratch, inflated, -, hleft⟩ := treat_leaves { d with stats } s
    rw [hd, conclude_leaves (treat_ne_fault { d with stats } s), hleft]
    exact congrArg (· + _) herrors

end BackupVolume.Decoder
