import BackupVolume.Proofs.Volume.Findings

/-! # Readers that are alike

What a reader gives depends on the octets that its source still hands out, on what is left of the
current block, and on the record that waits. Neither the counts nor the places of blocks on a device
have an influence, so that readers which agree in the rest give the same results for ever.
-/
namespace BackupVolume

namespace BlockSource
variable {σ ρ : Type} [BlockSource σ] [BlockSource ρ]

def later (s : σ) : Nat → σ
  | 0 => s
  | n + 1 => later (read s).1 n

def reading (s : σ) : Except IoFault (Option Bytes) := (read s).2.map (Option.map RawBlock.bytes)

/-- The sources hand out the same octets, and come to the same ends and faults. -/
def Mirrors (s : σ) (t : ρ) : Prop := ∀ n, reading (later s n) = reading (later t n)

theorem Mirrors.refl (s : σ) : Mirrors s s := fun _ => rfl

theorem Mirrors.symm {s : σ} {t : ρ} (h : Mirrors s t) : Mirrors t s := fun n => (h n).symm

theorem Mirrors.read {s : σ} {t : ρ} (h : Mirrors s t) :
    reading s = reading t ∧ Mirrors (BlockSource.read s).1 (BlockSource.read t).1 :=
  ⟨h 0, fun n => h (n + 1)⟩

end BlockSource

def LoadedBlock.contents (b : LoadedBlock) : BlockHeader × Bytes := (b.header, b.rest)

namespace LoadedBlock
variable {b d : LoadedBlock}

theorem contents_drop (h : b.contents = d.contents) (n : Nat) :
    (b.drop n).contents = (d.drop n).contents := by
  obtain ⟨hheader, hrest⟩ := Prod.mk.inj h
  exact Prod.ext hheader (congrArg (List.drop n) hrest)

/-- What is read at the start of a block is told by its contents. -/
theorem of_contents (h : b.contents = d.contents) :
    d.layout.recordHeaderLength = b.layout.recordHeaderLength ∧
      d.rest.take b.layout.recordHeaderLength = b.rest.take b.layout.recordHeaderLength ∧
      PieceHeader.ofBytes d.layout d.session (b.rest.take b.layout.recordHeaderLength)
        = PieceHeader.ofBytes b.layout b.session (b.rest.take b.layout.recordHeaderLength) ∧
      d.number = b.number := by
  obtain ⟨hheader, hrest⟩ := Prod.mk.inj h
  simp only [layout, session, number, hheader, hrest, and_self]

theorem load_congr (verify : Bool) (key : Option VolumeKey) {raw again : RawBlock}
    (h : raw.bytes = again.bytes) :
    (load verify key raw).map contents = (load verify key again).map contents := by
  obtain ⟨address, bytes⟩ := raw
  obtain ⟨place, bytes⟩ := again
  subst h
  rcases hdecode : BlockHeader.decode verify bytes with e | ⟨header, rest⟩
  · simp only [load, decode, hdecode, bind, Except.bind, Except.map]
  · simp only [load, decode, hdecode, bind, Except.bind, pure, Except.pure]
    by_cases hsealed : header.options.contains .blockSealed = true
    · simp only [if_pos hsealed]
      rcases key with _ | k
      · rfl
      · simp only [number, session]
        rcases k.decrypt (VolumeKey.associatedData header.number header.session) rest with e | plain
          <;> rfl
    · simp only [if_neg hsealed]
      rfl

end LoadedBlock

namespace Assembler
variable {a c : Assembler} {b d : LoadedBlock}

theorem settle_alike {f : Fragment} {a' : Assembler} {b' : LoadedBlock} {u : Unpacked}
    (hs : a.settle f b = (a', b', u)) (hb : b.contents = d.contents) :
    ∃ c' d', c.settle f d = (c', d', u) ∧ a'.pending = c'.pending ∧ b'.contents = d'.contents := by
  have hrest : b.rest = d.rest := (Prod.mk.inj hb).2
  rw [settle, hrest] at hs
  rw [settle]
  by_cases hwhole : (f.extend (d.rest.take f.missing)).missing = 0
  · simp only [if_pos hwhole] at hs ⊢
    cases hs
    exact ⟨_, _, rfl, rfl, LoadedBlock.contents_drop hb _⟩
  · simp only [if_neg hwhole] at hs ⊢
    cases hs
    exact ⟨_, _, rfl, rfl, LoadedBlock.contents_drop hb _⟩

section Unpack
variable {n : Nat} {raw : Bytes} {head : PieceHeader} {f : Fragment}
  (hn : b.layout.recordHeaderLength = n) (hraw : b.rest.take n = raw)
  (hhead : PieceHeader.ofBytes b.layout b.session raw = head)
include hn hraw

theorem unpack_short (short : raw.length < n) : a.unpack b = (a, b.exhausted, .ok .exhausted) := by
  subst hn hraw
  rw [unpack]
  simp only [dif_pos short]

include hhead

theorem unpack_continued (long : ¬raw.length < n) (ha : a.pending = some f)
    (hf : f.continuedBy head = true) :
    a.unpack b = ((a.discard.settle f (b.drop n)).1, (a.discard.settle f (b.drop n)).2.1,
      .ok (a.discard.settle f (b.drop n)).2.2) := by
  subst hn hraw hhead
  rw [unpack]
  simp only [dif_neg long, ha, if_pos hf]

theorem unpack_broken (long : ¬raw.length < n) (ha : a.pending = some f)
    (hf : ¬f.continuedBy head = true) :
    a.unpack b = (a.discard, b, .error (.brokenContinuation b.number f.head.fileIndex f.missing
      head)) := by
  subst hn hraw hhead
  rw [unpack]
  simp only [dif_neg long, ha, if_neg hf]

theorem unpack_orphan (long : ¬raw.length < n) (ha : a.pending = none)
    (hc : head.tag.isContinuation = true) :
    a.unpack b = { a with orphans := a.orphans + 1 }.unpack
      (b.drop (n + head.outstanding.toNat)) := by
  subst hn hraw hhead
  rw [unpack]
  simp only [dif_neg long, ha, if_pos hc]

theorem unpack_first (long : ¬raw.length < n) (ha : a.pending = none)
    (hc : ¬head.tag.isContinuation = true) :
    a.unpack b =
      ((a.settle ⟨head, b.number, #[], head.outstanding.toNat⟩ (b.drop n)).1,
        (a.settle ⟨head, b.number, #[], head.outstanding.toNat⟩ (b.drop n)).2.1,
        .ok (a.settle ⟨head, b.number, #[], head.outstanding.toNat⟩ (b.drop n)).2.2) := by
  subst hn hraw hhead
  rw [unpack]
  simp only [dif_neg long, ha, if_neg hc]

end Unpack

/-- Unpacking looks at the octets of the block and at the record that waits. -/
theorem unpack_alike {a' : Assembler} {b' : LoadedBlock} {u : Except RecordError Unpacked}
    (hu : a.unpack b = (a', b', u)) (ha : a.pending = c.pending) (hb : b.contents = d.contents) :
    ∃ c' d', c.unpack d = (c', d', u) ∧ a'.pending = c'.pending ∧ b'.contents = d'.contents := by
  fun_induction unpack a b generalizing c d
  case case1 a b n raw short =>
    obtain ⟨hn, hraw, -, -⟩ := LoadedBlock.of_contents hb
    cases hu
    exact ⟨c, d.exhausted, unpack_short hn hraw short, ha, Prod.ext (Prod.mk.inj hb).1 rfl⟩
  case case2 a b n raw long head f waits continued a' b' u settled =>
    obtain ⟨hn, hraw, hhead, -⟩ := LoadedBlock.of_contents hb
    obtain ⟨c', d', hsettle, hpending, hblock⟩ :=
      settle_alike settled (LoadedBlock.contents_drop hb n) (c := c.discard)
    cases hu
    refine ⟨c', d', ?_, hpending, hblock⟩
    rw [unpack_continued hn hraw hhead long (ha ▸ waits) continued, hsettle]
  case case3 a b n raw long head f waits broken =>
    obtain ⟨hn, hraw, hhead, hnumber⟩ := LoadedBlock.of_contents hb
    cases hu
    refine ⟨c.discard, d, ?_, rfl, hb⟩
    rw [unpack_broken hn hraw hhead long (ha ▸ waits) broken, hnumber]
  case case4 a b n raw long head waits continuation ih =>
    obtain ⟨hn, hraw, hhead, -⟩ := LoadedBlock.of_contents hb
    rw [unpack_orphan hn hraw hhead long (ha ▸ waits) continuation]
    exact ih hu ha (LoadedBlock.contents_drop hb _)
  case case5 a b n raw long head waits first a' b' u settled =>
    obtain ⟨hn, hraw, hhead, hnumber⟩ := LoadedBlock.of_contents hb
    obtain ⟨c', d', hsettle, hpending, hblock⟩ :=
      settle_alike settled (LoadedBlock.contents_drop hb n) (c := c)
    cases hu
    refine ⟨c', d', ?_, hpending, hblock⟩
    rw [unpack_first hn hraw hhead long (ha ▸ waits) first, hnumber, hsettle]

end Assembler

namespace VolumeReader
variable {σ ρ : Type}

def after [BlockSource σ] (r : VolumeReader σ) : Nat → VolumeReader σ
  | 0 => r
  | n + 1 => after r.nextRecord.1 n

def result [BlockSource σ] (r : VolumeReader σ) (n : Nat) : Except Failure (Option Record) :=
  (r.after n).nextRecord.2

variable [BlockSource σ] [BlockSource ρ]

structure IsSimulation (R : VolumeReader σ → VolumeReader ρ → Prop) : Prop where
  drain {r r' : VolumeReader σ} {s : VolumeReader ρ} {x : Option (Except Failure Record)} :
    R r s → r.drain = (r', x) → ∃ s', s.drain = (s', x) ∧ R r' s'
  fetch {r r' : VolumeReader σ} {s : VolumeReader ρ} {f : Fetched} :
    R r s → r.fetch = (r', f) → ∃ s', s.fetch = (s', f) ∧ R r' s'

namespace IsSimulation
variable {R : VolumeReader σ → VolumeReader ρ → Prop} {r r' : VolumeReader σ} {s : VolumeReader ρ}

/-- Readers that are related give the same, and are related again. -/
theorem nextRecord (hR : IsSimulation R) (h : R r s) {x : Except Failure (Option Record)}
    (hn : r.nextRecord = (r', x)) : ∃ s', s.nextRecord = (s', x) ∧ R r' s' := by
  fun_induction VolumeReader.nextRecord r generalizing s with
  | case1 r t record drained =>
    cases hn
    obtain ⟨s', hs, hrelated⟩ := hR.drain h drained
    exact ⟨s', nextRecord_drained hs, hrelated⟩
  | case2 r t e drained =>
    cases hn
    obtain ⟨s', hs, hrelated⟩ := hR.drain h drained
    exact ⟨s', nextRecord_drained hs, hrelated⟩
  | case3 r t drained u fetched =>
    cases hn
    obtain ⟨s', hs, hrelated⟩ := hR.drain h drained
    obtain ⟨s'', hf, hrelated⟩ := hR.fetch hrelated fetched
    exact ⟨s'', nextRecord_fetched hs hf, hrelated⟩
  | case4 r t drained u e fetched =>
    cases hn
    obtain ⟨s', hs, hrelated⟩ := hR.drain h drained
    obtain ⟨s'', hf, hrelated⟩ := hR.fetch hrelated fetched
    exact ⟨s'', nextRecord_fetched hs hf, hrelated⟩
  | case5 r t drained u fetched ih =>
    obtain ⟨s', hs, hrelated⟩ := hR.drain h drained
    obtain ⟨s'', hf, hrelated⟩ := hR.fetch hrelated fetched
    rw [nextRecord_fetched hs hf]
    exact ih hrelated hn

theorem after (hR : IsSimulation R) (h : R r s) (n : Nat) : R (r.after n) (s.after n) := by
  induction n generalizing r s with
  | zero => exact h
  | succ n ih =>
    obtain ⟨s', hs, hrelated⟩ := hR.nextRecord h (x := r.nextRecord.2) rfl
    have hs' : s.nextRecord.1 = s' := by rw [hs]
    exact ih (hs' ▸ hrelated)

theorem result (hR : IsSimulation R) (h : R r s) (n : Nat) : r.result n = s.result n := by
  obtain ⟨s', hs, -⟩ := hR.nextRecord (hR.after h n) (x := r.result n) rfl
  exact (congrArg Prod.snd hs).symm

end IsSimulation

structure Alike (r : VolumeReader σ) (s : VolumeReader ρ) : Prop where
  source : BlockSource.Mirrors r.source s.source
  verify : r.verify = s.verify
  key : r.key = s.key
  current : r.current.map LoadedBlock.contents = s.current.map LoadedBlock.contents
  pending : r.assembler.pending = s.assembler.pending

namespace Alike
variable {r r' : VolumeReader σ} {s : VolumeReader ρ}

theorem drain (h : r.Alike s) {x : Option (Except Failure Record)} (hd : r.drain = (r', x)) :
    ∃ s', s.drain = (s', x) ∧ r'.Alike s' := by
  rcases hb : r.current with _ | b
  · have hs : s.current = none := by simpa [hb] using h.current.symm
    simp only [VolumeReader.drain, hb] at hd
    cases hd
    exact ⟨s, by simp only [VolumeReader.drain, hs], h⟩
  · obtain ⟨d, hs, hsame⟩ : ∃ d, s.current = some d ∧ d.contents = b.contents := by
      simpa [hb] using h.current.symm
    rcases hu : r.assembler.unpack b with ⟨a, b', u⟩
    obtain ⟨c, d', hv, hpending, hblock⟩ := Assembler.unpack_alike hu h.pending hsame.symm
    rcases u with e | x | _ <;>
      simp only [VolumeReader.drain, hb, hu] at hd <;>
      cases hd <;> simp only [VolumeReader.drain, hs, hv]
    · exact ⟨_, rfl, h.source, h.verify, h.key, congrArg some hblock, hpending⟩
    · exact ⟨_, rfl, h.source, h.verify, h.key, congrArg some hblock, hpending⟩
    · exact ⟨_, rfl, h.source, h.verify, h.key, rfl, hpending⟩

theorem dropPending (h : r.Alike s) : r.dropPending.Alike s.dropPending := by
  have hwaits : r.assembler.isPending = s.assembler.isPending := by
    rw [Assembler.isPending, Assembler.isPending, h.pending]
  rw [VolumeReader.dropPending, VolumeReader.dropPending, hwaits]
  split
  · exact ⟨h.source, h.verify, h.key, h.current, rfl⟩
  · exact h

theorem fetch (h : r.Alike s) {f : Fetched} (hf : r.fetch = (r', f)) :
    ∃ s', s.fetch = (s', f) ∧ r'.Alike s' := by
  obtain ⟨hreading, hrest⟩ := h.source.read
  rw [BlockSource.reading, BlockSource.reading] at hreading
  rcases hr : BlockSource.read r.source with ⟨source, e | _ | raw⟩ <;>
    rcases hs : BlockSource.read s.source with ⟨other, e' | _ | again⟩ <;>
    rw [hr, hs] at hreading hrest <;>
    simp only [Except.map, Option.map, reduceCtorEq, Except.error.injEq, Except.ok.injEq,
      Option.some.injEq] at hreading <;>
    simp only [VolumeReader.fetch, hr] at hf
  · cases hf
    subst hreading
    simp only [VolumeReader.fetch, hs]
    exact ⟨_, rfl, hrest, h.verify, h.key, h.current, h.pending⟩
  · cases hf
    simp only [VolumeReader.fetch, hs]
    exact ⟨_, rfl, dropPending ⟨hrest, h.verify, h.key, h.current, h.pending⟩⟩
  · have hload := LoadedBlock.load_congr r.verify r.key hreading
    rcases hb : LoadedBlock.load r.verify r.key raw with e | b <;>
      rcases hd : LoadedBlock.load r.verify r.key again with e' | d <;>
      rw [hb, hd] at hload <;>
      simp only [Except.map, reduceCtorEq, Except.error.injEq, Except.ok.injEq] at hload <;>
      rw [h.verify, h.key] at hd <;> simp only [hb] at hf <;> cases hf <;>
      simp only [VolumeReader.fetch, hs, hd]
    · subst hload
      exact ⟨_, rfl, dropPending ⟨hrest, h.verify, h.key, h.current, h.pending⟩⟩
    · exact ⟨_, rfl, hrest, h.verify, h.key, congrArg some hload, h.pending⟩

theorem isSimulation : IsSimulation (fun (r : VolumeReader σ) (s : VolumeReader ρ) => r.Alike s) where
  drain h hd := h.drain hd
  fetch h hf := h.fetch hf

theorem after (h : r.Alike s) (n : Nat) : (r.after n).Alike (s.after n) := isSimulation.after h n

/-- What two readers that are alike give, call after call, is the same. -/
theorem result (h : r.Alike s) (n : Nat) : r.result n = s.result n := isSimulation.result h n

end Alike
end VolumeReader
end BackupVolume
