import BackupVolume.Proofs.Restore.Independence

/-! # A decoder that has decoded other records

The room of a decoder grows with the records that go by, up to its cap, and is shared by all of
them. What comes of a record is still what a new decoder makes of it.
-/
namespace BackupVolume.Decoder
open Compression

def decodeAll (d : Decoder) (records : List Record) : Decoder :=
  records.foldl (fun e r => (e.decode r).1) d

/-- A record may make the room grow, and nothing makes it shrink. -/
theorem grows_decode (d : Decoder) (r : Record) : d.scratch.Grows (d.decode r).1.scratch := by
  obtain ⟨stats, -, -, -, ⟨x, -, hd⟩ | ⟨s, -, hd⟩⟩ := d.decode_cases r
  · rw [hd]
    exact .refl _
  · obtain ⟨scratch, inflated, hgrows, hleft⟩ := treat_leaves { d with stats } s
    rw [hd, conclude_leaves (treat_ne_fault { d with stats } s), hleft]
    exact hgrows

theorem grows_decodeAll (d : Decoder) (records : List Record) :
    d.scratch.Grows (d.decodeAll records).scratch := by
  induction records generalizing d with
  | nil => exact .refl _
  | cons r records ih => exact (d.grows_decode r).trans (ih (d.decode r).1)

/-- Records leave room and counts in a decoder and nothing else. -/
theorem SameBut.decodeAll (d : Decoder) (records : List Record) :
    d.SameBut (d.decodeAll records) := by
  induction records generalizing d with
  | nil => exact .refl d
  | cons r records ih =>
    have hstep : d.SameBut (d.decode r).1 := ⟨d.continues_decode r, (d.grows_decode r).2.symm⟩
    exact hstep.trans (ih (d.decode r).1)

/-- A record that comes behind any others is answered as by a new decoder, and as much is counted
for it. The room that all of them share does not shrink, and stays within the cap. -/
theorem decode_behind (o : JobOptions) (rehydrator : Rehydrator)
    (unpacker : Record → Except AttributeError Attributes) {codecs : Codecs} (hc : codecs.IsSteady)
    (before : List Record) (r : Record) :
    let fresh : Decoder := { create o rehydrator with unpacker, codecs }
    let used := fresh.decodeAll before
    (used.decode r).2 = (fresh.decode r).2 ∧
      (used.decode r).1.stats = used.stats.plus (fresh.decode r).1.stats ∧
      used.scratch.size ≤ (used.decode r).1.scratch.size ∧
      (used.decode r).1.scratch.size ≤ max o.decompressCap 1 := by
  intro fresh used
  have hagree := agree_decode hc (SameBut.decodeAll fresh before) r
  obtain ⟨more, hfresh, hused⟩ := hagree.counts
  have hroom := (fresh.grows_decodeAll before).trans (used.grows_decode r)
  refine ⟨hagree.result.symm, ?_, (used.grows_decode r).1, ?_⟩
  · -- a new decoder has counted nothing before
    have hmore : more = (fresh.decode r).1.stats := by
      rw [hfresh]
      exact (DecoderStats.zero_plus more).symm
    rw [hused, hmore]
  · have hcap : (used.decode r).1.scratch.cap = max o.decompressCap 1 := hroom.2
    rw [← hcap]
    exact (used.decode r).1.scratch.size_le_cap

def deflatedRecord : Record := ⟨1, ⟨4⟩, [120, 1, 1, 2, 0, 253, 255, 5, 6, 0, 18, 0, 12], {}, 0⟩

def steadyCodecs : Codecs := ⟨steadyZlib, fun _ => steadyZlib⟩

/-- The room of one octet is too small for the first record, and has grown for the second one. -/
theorem decode_behind_deflated :
    let fresh : Decoder := { create { scratchInitial := 1 } with codecs := steadyCodecs }
    let used := fresh.decodeAll [deflatedRecord]
    steadyCodecs.IsSteady ∧ fresh.scratch.size = 1 ∧ used.scratch.size = 2 ∧
      (fresh.decode deflatedRecord).2 = .ok (.write none [5, 6]) ∧
      (used.decode deflatedRecord).2 = .ok (.write none [5, 6]) ∧
      (used.decode deflatedRecord).1.stats
        = used.stats.plus (fresh.decode deflatedRecord).1.stats ∧
      used.scratch.size ≤ (used.decode deflatedRecord).1.scratch.size ∧
      (used.decode deflatedRecord).1.scratch.size ≤ 10000000 := by
  intro fresh used
  have hsteady : steadyCodecs.IsSteady :=
    ⟨Codec.isSteady_answering _ _, fun _ => Codec.isSteady_answering _ _⟩
  have hfresh : (fresh.decode deflatedRecord).2 = .ok (.write none [5, 6]) := by
    have hfound : (fresh.decode deflatedRecord).2.toOption = some (.write none [5, 6]) := by
      decide +kernel
    cases hd : (fresh.decode deflatedRecord).2 with
    | error e => simp [hd, Except.toOption] at hfound
    | ok action => exact congrArg Except.ok (Option.some.inj (by rwa [hd] at hfound))
  obtain ⟨hsame, hcounts, hgrows, hcap⟩ := decode_behind { scratchInitial := 1 } .unaware
    Attributes.ofRecord hsteady [deflatedRecord] deflatedRecord
  refine ⟨hsteady, by decide, by decide +kernel, hfresh, ?_, hcounts, hgrows, hcap⟩
  exact hsame.trans hfresh

end BackupVolume.Decoder
