import BackupVolume.Proofs.Compression.Unpacking
import BackupVolume.Proofs.Restore.Decoded

/-! # What went before does not matter

A decoder is left with room and counts by the records that it has decoded. Decoders that differ in
nothing else, under the same cap, come to the same on every record and count the same, provided
their codecs are steady.
-/
namespace BackupVolume

namespace DecoderStats

def plus (a b : DecoderStats) : DecoderStats where
  records := a.records + b.records
  rehydrated := a.rehydrated + b.rehydrated
  inflated := a.inflated + b.inflated
  errors := a.errors + b.errors
  unsupported := a.unsupported + b.unsupported

theorem zero_plus (a : DecoderStats) : plus {} a = a := by
  simp only [plus, Nat.zero_add]

theorem plus_assoc (a b c : DecoderStats) : (a.plus b).plus c = a.plus (b.plus c) := by
  simp only [plus, Nat.add_assoc]

end DecoderStats

namespace Decoder
variable {α : Type} {d e f : Decoder} {x y : Decoder × Except Failure α}

/-- Decoders that differ only in what records have left in them. -/
def SameBut (d e : Decoder) : Prop := d.Continues e ∧ d.scratch.cap = e.scratch.cap

theorem SameBut.refl (d : Decoder) : d.SameBut d := ⟨.refl d, rfl⟩

theorem SameBut.trans (h : d.SameBut e) (h' : e.SameBut f) : d.SameBut f :=
  ⟨h.1.trans h'.1, h.2.trans h'.2⟩

theorem SameBut.symm (h : d.SameBut e) : e.SameBut d := by
  obtain ⟨⟨scratch, stats, rfl⟩, hcap⟩ := h
  exact ⟨⟨d.scratch, d.stats, rfl⟩, hcap.symm⟩

theorem SameBut.codecs_eq (h : d.SameBut e) : e.codecs = d.codecs := by
  obtain ⟨⟨scratch, stats, rfl⟩, -⟩ := h
  rfl

structure Agree (d e : Decoder) (x y : Decoder × Except Failure α) : Prop where
  result : x.2 = y.2
  left : d.SameBut x.1
  right : x.1.SameBut y.1
  counts : ∃ more, x.1.stats = d.stats.plus more ∧ y.1.stats = e.stats.plus more

/-- A step that leaves the room as it is and counts something. -/
theorem SameBut.agree (h : d.SameBut e) (more : DecoderStats) (result : Except Failure α) :
    Agree d e ({ d with stats := d.stats.plus more }, result)
      ({ e with stats := e.stats.plus more }, result) := by
  obtain ⟨⟨scratch, stats, rfl⟩, hcap⟩ := h
  exact ⟨rfl, ⟨⟨_, _, rfl⟩, rfl⟩, ⟨⟨_, _, rfl⟩, hcap⟩, more, rfl, rfl⟩

/-- Two steps, one behind the other. -/
theorem Agree.trans {β : Type} {x' y' : Decoder × Except Failure β} (h : Agree d e x y)
    (h' : Agree x.1 y.1 x' y') : Agree d e x' y' := by
  obtain ⟨more, hx, hy⟩ := h.counts
  obtain ⟨more', hx', hy'⟩ := h'.counts
  refine ⟨h'.result, h.left.trans h'.left, h'.right, more.plus more', ?_, ?_⟩
  · rw [hx', hx, DecoderStats.plus_assoc]
  · rw [hy', hy, DecoderStats.plus_assoc]

theorem agree_rehydrate (h : d.SameBut e) (r : Record) :
    Agree d e (d.rehydrate r) (e.rehydrate r) := by
  have hsame := h
  obtain ⟨⟨scratch, stats, rfl⟩, -⟩ := hsame
  unfold rehydrate
  split
  · exact h.agree {} _
  · dsimp only
    rcases d.rehydrator r with (⟨message⟩ | ⟨message, recovered⟩) | payload
    · exact h.agree {} _
    · dsimp only
      split
      · exact h.agree { rehydrated := 1, errors := 1 } _
      · exact h.agree { errors := 1 } _
    · exact h.agree { rehydrated := 1 } _

theorem agree_decompress (h : d.SameBut e) (r : Record)
    {unpack : Bytes → Compression.Scratch →
      Except Compression.CodecError Bytes × Compression.Scratch}
    (hunpack : ∀ packed, Compression.DependsOnCap (unpack packed)) :
    Agree d e (d.decompress r unpack) (e.decompress r unpack) := by
  have hsame := h
  obtain ⟨⟨scratch, stats, rfl⟩, hcap⟩ := hsame
  rw [decompress, decompress]
  rcases r.splitAddress with x | ⟨address, packed⟩
  · exact h.agree {} _
  · obtain ⟨hresult, hleft⟩ := hunpack packed d.scratch scratch hcap
    have hright := (hunpack packed scratch scratch rfl).2
    dsimp only
    rcases hd : unpack packed d.scratch with ⟨a, s⟩
    rcases he : unpack packed scratch with ⟨b, t⟩
    rw [hd, he] at hresult
    rw [hd] at hleft
    rw [he] at hright
    obtain rfl : a = b := hresult
    have hcaps : s.cap = t.cap := hleft.trans (hcap.trans hright.symm)
    rcases a with x | data
    · exact ⟨rfl, ⟨⟨_, _, rfl⟩, hleft.symm⟩, ⟨⟨_, _, rfl⟩, hcaps⟩, {}, rfl, rfl⟩
    · exact ⟨rfl, ⟨⟨_, _, rfl⟩, hleft.symm⟩, ⟨⟨_, _, rfl⟩, hcaps⟩, { inflated := 1 }, rfl, rfl⟩

theorem agree_treat (hc : d.codecs.IsSteady) (h : d.SameBut e) (r : Record) :
    Agree d e (d.treat r) (e.treat r) := by
  have hinflate := agree_decompress h r hc.inflate
  have hunwrap := agree_decompress h r hc.unwrap
  have hsame := h
  obtain ⟨⟨scratch, stats, rfl⟩, -⟩ := hsame
  unfold treat
  split
  · dsimp only
    rcases d.unpacker r with x | a
    · exact h.agree {} _
    · exact h.agree {} _
  · rcases r.splitAddress with x | ⟨address, data⟩
    · exact h.agree {} _
    · exact h.agree {} _
  · exact hinflate
  · exact hunwrap
  · exact h.agree {} _
  · exact h.agree { unsupported := 1 } _

/-- What a decoder makes of a record, and what it counts, does not depend on the records before. -/
theorem agree_decode (hc : d.codecs.IsSteady) (h : d.SameBut e) (r : Record) :
    Agree d e (d.decode r) (e.decode r) := by
  have hcounted : Agree d e ({ d with stats := d.stats.plus { records := 1 } }, .ok ())
    ({ e with stats := e.stats.plus { records := 1 } }, .ok ()) := h.agree { records := 1 } _
  have hrehydrate := hcounted.trans (agree_rehydrate hcounted.right r)
  simp only [decode]
  rcases hd : Decoder.rehydrate { d with
    stats := { d.stats with records := d.stats.records + 1 } } r with ⟨d', x⟩
  rcases he : Decoder.rehydrate { e with
    stats := { e.stats with records := e.stats.records + 1 } } r with ⟨e', y⟩
  have hput : Agree d e (d', x) (e', y) := by
    rw [← hd, ← he]
    exact hrehydrate
  obtain rfl : x = y := hput.result
  rcases x with failure | s
  · exact ⟨rfl, hput.left, hput.right, hput.counts⟩
  · have hcodecs : d'.codecs.IsSteady := by
      rw [hput.left.codecs_eq]
      exact hc
    have htreat := hput.trans (agree_treat hcodecs hput.right s)
    dsimp only at htreat ⊢
    rcases hd' : d'.treat s with ⟨d'', z⟩
    rcases he' : e'.treat s with ⟨e'', w⟩
    rw [hd', he'] at htreat
    obtain rfl : z = w := htreat.result
    rcases z with failure | action
    · dsimp only
      split
      · exact htreat.trans (htreat.right.agree { errors := 1 } _)
      · exact htreat
    · exact htreat

end Decoder
end BackupVolume
