import BackupVolume.Proofs.Volume.Invariance

/-! # Records that are found can be stored

Whatever a source hands out, a record that a reader finds carries the tag of a first piece, and its
payload is as long as that piece announced. Such a record can be written again.
-/
namespace BackupVolume

structure Record.IsStorable (r : Record) : Prop where
  tag : r.tag.isContinuation = false
  length : r.payload.length < 2 ^ 32

structure Fragment.IsWhole (f : Fragment) : Prop where
  tag : f.head.tag.isContinuation = false
  length : f.collected.size + f.missing = f.head.outstanding.toNat

namespace Assembler

def IsWhole (a : Assembler) : Prop := ∀ f, a.pending = some f → f.IsWhole

theorem isWhole_discard (a : Assembler) : a.discard.IsWhole := by
  intro f hf
  cases hf

theorem isWhole_settle {a c : Assembler} {f : Fragment} {b d : LoadedBlock} {u : Unpacked}
    (hf : f.IsWhole) (hs : a.settle f b = (c, d, u)) :
    c.IsWhole ∧ ∀ r, u = .record r → r.IsStorable := by
  have hgrown : (f.extend (b.rest.take f.missing)).IsWhole := by
    refine ⟨hf.tag, ?_⟩
    have hlen := hf.length
    have hsize : (f.collected ++ b.rest.take f.missing).size
        = f.collected.size + min f.missing b.rest.length := by
      rw [← Array.length_toList]
      simp
    simp only [Fragment.extend, hsize, List.length_take]
    omega
  rw [settle] at hs
  split at hs
  · next hdone =>
    simp only [Prod.mk.injEq] at hs
    obtain ⟨rfl, rfl, rfl⟩ := hs
    refine ⟨by rintro g ⟨⟩, ?_⟩
    intro r hr
    cases hr
    refine ⟨hgrown.tag, ?_⟩
    have hlen := hgrown.length
    rw [hdone, Nat.add_zero] at hlen
    change (f.extend (b.rest.take f.missing)).collected.toList.length < 2 ^ 32
    rw [Array.length_toList, hlen]
    exact UInt32.toNat_lt _
  · simp only [Prod.mk.injEq] at hs
    obtain ⟨rfl, rfl, rfl⟩ := hs
    refine ⟨?_, by rintro r ⟨⟩⟩
    rintro g ⟨rfl⟩
    exact hgrown

theorem isWhole_unpack {a c : Assembler} {b d : LoadedBlock} {x : Except RecordError Unpacked}
    (ha : a.IsWhole) (hu : a.unpack b = (c, d, x)) :
    c.IsWhole ∧ ∀ r, x = .ok (.record r) → r.IsStorable := by
  fun_induction unpack a b with
  | case1 a b n raw short =>
    simp only [Prod.mk.injEq] at hu
    obtain ⟨rfl, rfl, rfl⟩ := hu
    exact ⟨ha, by rintro r ⟨⟩⟩
  | case2 a b n raw short head f waits continued a' b' u settled =>
    simp only [Prod.mk.injEq] at hu
    obtain ⟨rfl, rfl, rfl⟩ := hu
    obtain ⟨hwhole, hrecord⟩ := isWhole_settle (ha f waits) settled
    refine ⟨hwhole, ?_⟩
    rintro r ⟨rfl⟩
    exact hrecord r rfl
  | case3 a b n raw short head f waits broken =>
    simp only [Prod.mk.injEq] at hu
    obtain ⟨rfl, rfl, rfl⟩ := hu
    exact ⟨a.isWhole_discard, by rintro r ⟨⟩⟩
  | case4 a b n raw short head none continuation ih =>
    refine ih ?_ hu
    intro f hf
    rw [none] at hf
    cases hf
  | case5 a b n raw short head none first a' b' u settled =>
    simp only [Prod.mk.injEq] at hu
    obtain ⟨rfl, rfl, rfl⟩ := hu
    have hhead : (⟨head, b.number, #[], head.outstanding.toNat⟩ : Fragment).IsWhole :=
      ⟨by simpa using first, Nat.zero_add _⟩
    obtain ⟨hwhole, hrecord⟩ := isWhole_settle hhead settled
    refine ⟨hwhole, ?_⟩
    rintro r ⟨rfl⟩
    exact hrecord r rfl

end Assembler

namespace VolumeReader
variable {σ : Type} [BlockSource σ] {r s : VolumeReader σ}

/-- Every record of a volume can be stored again. -/
theorem isStorable_readAll {fs : List Finding} {e : Ending Empty} (h : r.assembler.IsWhole)
    (hr : r.readAll = (fs, s, e)) : ∀ record ∈ Finding.records fs, record.IsStorable := by
  have keeps : Keeps r.verify r.key (fun _ : σ => True) Assembler.IsWhole (fun _ => True)
      Record.IsStorable := by
    refine ⟨fun _ => Assembler.isWhole_discard _, ?_, fun _ _ => trivial, fun _ _ _ => trivial⟩
    intro a c b d x ha _ unpacked
    obtain ⟨hwhole, hfound⟩ := Assembler.isWhole_unpack ha unpacked
    exact ⟨hwhole, trivial, hfound⟩
  exact keeps.readAll ⟨rfl, rfl, trivial, h, fun _ _ => trivial⟩ hr

end VolumeReader
end BackupVolume
