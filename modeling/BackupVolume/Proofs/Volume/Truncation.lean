import BackupVolume.Proofs.Volume.RoundTrip

/-! # Volumes that break off

A volume may end in the middle of a record, where its writer could not go on. Who reads it finds
the records that are there as a whole, and no failure: the piece at the end is forgotten.
-/
namespace BackupVolume

namespace Assembler
variable {session : Session} {o : Outstanding} {ps qs : List Placed} {a : Assembler}

/-- Pieces that do not complete a fragment give nothing. -/
theorem meetAll_part_waiting (hc : o.Cut session qs) (ht : 0 < o.tag.raw)
    (hl : o.rest.length < 2 ^ 32) {f : Fragment} (ha : a.pending = some f) (hf : f.Awaits o)
    (hp : ps <+: qs) (hpart : ps ≠ qs) : (a.meetAll (fun _ => true) ps).2 = [] := by
  induction hc generalizing a f ps with
  | last o n =>
    rcases List.prefix_cons_iff.mp hp with rfl | ⟨rest, rfl, hrest⟩
    · rfl
    · exact absurd (by rw [List.prefix_nil.mp hrest]) hpart
  | @split o qs n k hk hcut ih =>
    rcases List.prefix_cons_iff.mp hp with rfl | ⟨rest, rfl, hrest⟩
    · rfl
    · obtain ⟨hawaits, hmeet⟩ := meet_waiting (fun _ => true) session ht hl ha hf (n := n) rfl hk
      have hless : (o.after k).rest.length < 2 ^ 32 := by
        rw [o.length_rest_after]
        omega
      simp only [meetAll, hmeet, List.nil_append]
      exact ih ht hless rfl hawaits hrest fun heq => hpart (congrArg _ heq)

/-- The first pieces of a record do not make it. -/
theorem meetAll_part (hc : o.Cut session qs) (hs : o.started = false) (ht : 0 < o.tag.raw)
    (hl : o.rest.length < 2 ^ 32) (ha : a.pending = none) (hp : ps <+: qs) (hpart : ps ≠ qs) :
    (a.meetAll (fun _ => true) ps).2 = [] := by
  cases hc with
  | last o n =>
    rcases List.prefix_cons_iff.mp hp with rfl | ⟨rest, rfl, hrest⟩
    · rfl
    · exact absurd (by rw [List.prefix_nil.mp hrest]) hpart
  | @split o qs n k hk hcut =>
    rcases List.prefix_cons_iff.mp hp with rfl | ⟨rest, rfl, hrest⟩
    · rfl
    · obtain ⟨f, -, hawaits, hmeet⟩ :=
        meet_begun (fun _ => true) session hs ht hl ha (n := n) rfl hk
      have hless : (o.after k).rest.length < 2 ^ 32 := by
        rw [o.length_rest_after]
        omega
      simp only [meetAll, hmeet, List.nil_append]
      exact meetAll_part_waiting hcut ht hless rfl hawaits hrest fun heq => hpart (congrArg _ heq)

/-- The first pieces of a volume make the first of its records. -/
theorem meetAll_prefix {ps : List Placement} (hp : ∀ p ∈ ps, p.IsSound session)
    (ha : a.pending = none) {qs : List Placed} (hq : qs <+: ps.flatMap Placement.pieces) :
    ∃ n, (a.meetAll (fun _ => true) qs).2 = ((ps.take n).map (Placement.found session)).map .ok ∧
      (qs = ps.flatMap Placement.pieces → n = ps.length) := by
  induction ps generalizing a qs with
  | nil =>
    obtain rfl := List.prefix_nil.mp hq
    exact ⟨0, rfl, fun _ => rfl⟩
  | cons p ps ih =>
    have hfirst := hp p (by simp)
    by_cases hwhole : p.pieces <+: qs
    · obtain ⟨rest, rfl⟩ := hwhole
      have hmeet := meetAll_placement (fun _ => true) hfirst ha
      have hsurvives : p.survives (fun _ => true) = true := List.all_eq_true.mpr fun _ _ => rfl
      rw [if_pos hsurvives] at hmeet
      rw [List.flatMap_cons] at hq ⊢
      obtain ⟨n, hn, hall⟩ := ih (a := { a with records := a.records + 1 })
        (fun q hq => hp q (by simp [hq])) ha ((List.prefix_append_right_inj _).mp hq)
      refine ⟨n + 1, ?_, fun heq => ?_⟩
      · rw [meetAll_append, hmeet, hn]
        rfl
      · rw [hall (List.append_cancel_left heq), List.length_cons]
    · have hpart : qs <+: p.pieces :=
        (List.prefix_or_prefix_of_prefix hq (List.prefix_append _ _)).resolve_right hwhole
      refine ⟨0, ?_, fun heq => ?_⟩
      · exact meetAll_part hfirst.cut rfl hfirst.tag hfirst.length ha hpart
          fun heq => hwhole (heq ▸ List.prefix_rfl)
      · exact absurd (heq ▸ List.prefix_append _ _) hwhole

end Assembler

/-- These records are read from the blocks, in this order and of this session, whatever source of
the kind `σ` hands them out. Nothing else is found, and no failure; a record that breaks off is
passed over. -/
def ReadsOut (σ : Type) [BlockSource σ] (key : Option VolumeKey) (session : Session)
    (blocks : List Bytes) (rs : List Record) : Prop :=
  ∀ (source left : σ) (raws : List RawBlock) (verify : Bool),
    BlockSource.Yields source raws left → raws.map RawBlock.bytes = blocks →
    ∃ (found : List Record) (s : VolumeReader σ),
      ({ source, verify, key } : VolumeReader σ).readAll = (found.map .record, s, .endOfData) ∧
      found.map Record.unplaced = rs.map fun r => (r.inSession session).unplaced

/-- Of blocks that show the first pieces of some records, the first of these records are read. -/
theorem ShowAll.readsOut (σ : Type) [BlockSource σ] {key : Option VolumeKey} {session : Session}
    {bs : List Bytes} {qs : List Placed} (hq : ShowAll key 0 bs qs) {ps : List Placement}
    (hp : ∀ p ∈ ps, p.IsSound session) (hfirst : qs <+: ps.flatMap Placement.pieces) :
    ∃ rs, rs <+: ps.map Placement.record ∧ ReadsOut σ key session bs rs ∧
      (qs = ps.flatMap Placement.pieces → rs = ps.map Placement.record) := by
  obtain ⟨n, hfound, hall⟩ := Assembler.meetAll_prefix (a := {}) hp rfl hfirst
  refine ⟨(ps.map Placement.record).take n, List.take_prefix _ _, ?_, fun heq => ?_⟩
  · intro source left raws verify hy hr
    have hreceive := VolumeReader.receiveAll_whole (r := { source, verify, key }) hq hr rfl hfound
    have hread := VolumeReader.readAll_yields (r := { source, verify, key }) rfl hy
    rw [VolumeReader.afterAll, hreceive] at hread
    refine ⟨(ps.take n).map (Placement.found session), _, hread, ?_⟩
    rw [← List.map_take, List.map_map, List.map_map]
    exact List.map_congr_left fun p _ => p.unplaced_found session
  · rw [hall heq, ← ps.length_map Placement.record, List.take_length]

end BackupVolume
