import BackupVolume.Proofs.Volume.Findings
import BackupVolume.Proofs.Volume.Placement

/-! # What is left of a volume

Blocks of a volume may be refused when they are read again, and the last ones may be missing. A
reader shows every refused block once, and takes the pieces that lie in the others.
-/
namespace BackupVolume

namespace Finding

theorem map_ofUnpacked_ok (rs : List Record) :
    (rs.map Except.ok).map ofUnpacked = rs.map Finding.record := by
  rw [List.map_map]
  rfl

end Finding

namespace Assembler
variable {kept : Nat → Bool} (a : Assembler) {n : Nat}

theorem meetAll_lost (hn : kept n = false) {ps : List Piece} (hp : ps ≠ []) :
    a.meetAll kept (ps.map (.mk n)) = (a.discard, []) := by
  induction ps generalizing a with
  | nil => exact absurd rfl hp
  | cons p ps ih =>
    rw [List.map_cons, meetAll, meet, if_neg (by simp [hn])]
    cases ps with
    | nil => rfl
    | cons q qs =>
      simp only [ih a.discard (by simp)]
      rfl

theorem meetAll_none {qs : List Placed} (hk : ∀ q ∈ qs, kept q.block = false) :
    (a.meetAll kept qs).2 = [] := by
  induction qs generalizing a with
  | nil => rfl
  | cons q qs ih =>
    rw [meetAll, meet, if_neg (by simp [hk q])]
    simp [ih a.discard (fun p hp => hk p (by simp [hp]))]

end Assembler

theorem ShowAll.le_block {key : Option VolumeKey} {n : Nat} {bs : List Bytes} {qs : List Placed}
    (h : ShowAll key n bs qs) {q : Placed} (hq : q ∈ qs) : n ≤ q.block := by
  induction h with
  | nil => simp at hq
  | @block n b bs ps qs _ _ ih =>
    rcases List.mem_append.mp hq with hq | hq
    · obtain ⟨p, -, rfl⟩ := List.mem_map.mp hq
      exact Nat.le_refl n
    · exact Nat.le_of_succ_le (ih hq)

theorem ShowAll.eq_nil {key : Option VolumeKey} {n : Nat} {bs : List Bytes}
    (h : ShowAll key n bs []) : bs = [] := by
  obtain ⟨all, hall⟩ : ∃ all, ([] : List Placed) = all := ⟨_, rfl⟩
  rw [hall] at h
  cases h with
  | nil => rfl
  | block hb _ =>
    obtain ⟨hxs, -⟩ := List.append_eq_nil_iff.mp hall.symm
    exact absurd (List.map_eq_nil_iff.mp hxs) hb.filled

/-- A piece that has a block of its own. -/
theorem ShowAll.alone {key : Option VolumeKey} {n : Nat} {bs : List Bytes} {x : Piece}
    {qs : List Placed} (h : ShowAll key n bs (⟨n, x⟩ :: qs)) (hq : ∀ q ∈ qs, q.block ≠ n) :
    ∃ b cs, bs = b :: cs ∧ Shows key n b [x] ∧ ShowAll key (n + 1) cs qs := by
  obtain ⟨all, hall⟩ : ∃ all, (⟨n, x⟩ : Placed) :: qs = all := ⟨_, rfl⟩
  rw [hall] at h
  cases h with
  | nil => cases hall
  | @block _ b cs xs qs' hb hcs =>
    rcases xs with _ | ⟨y, ys⟩
    · exact absurd rfl hb.filled
    · simp only [List.map_cons, List.cons_append, List.cons.injEq, Placed.mk.injEq, true_and] at hall
      obtain ⟨rfl, rfl⟩ := hall
      rcases ys with _ | ⟨y, ys⟩
      · exact ⟨b, cs, rfl, hb, hcs⟩
      · exact absurd rfl (hq ⟨n, y⟩ (by simp))

/-- What is left of the blocks of a volume: the last ones may be missing, and others may be
refused. -/
inductive Remains (verify : Bool) (key : Option VolumeKey) : List Bytes → List RawBlock → Prop
  | missing (bs : List Bytes) : Remains verify key bs []
  | intact {b : Bytes} {bs : List Bytes} {raw : RawBlock} {raws : List RawBlock} :
    raw.bytes = b → Remains verify key bs raws → Remains verify key (b :: bs) (raw :: raws)
  | refused {b : Bytes} {bs : List Bytes} {raw : RawBlock} {raws : List RawBlock} {e : Failure} :
    LoadedBlock.load verify key raw = .error e → Remains verify key bs raws →
      Remains verify key (b :: bs) (raw :: raws)

def isReadable (verify : Bool) (key : Option VolumeKey) (raws : List RawBlock) (n : Nat) : Bool :=
  raws[n]?.any fun raw => (LoadedBlock.load verify key raw).isOk

def refusals (verify : Bool) (key : Option VolumeKey) (raws : List RawBlock) : List Failure :=
  raws.filterMap fun raw =>
    match LoadedBlock.load verify key raw with
    | .ok _ => none
    | .error e => some e

section Load
variable {verify : Bool} {key : Option VolumeKey} {raw : RawBlock} {e : Failure} {x : LoadedBlock}

theorem isReadable_of_ok (h : LoadedBlock.load verify key raw = .ok x) (raws : List RawBlock) :
    isReadable verify key (raw :: raws) 0 = true := by
  simp [isReadable, h, Except.isOk, Except.toBool]

theorem isReadable_of_error (h : LoadedBlock.load verify key raw = .error e)
    (raws : List RawBlock) : isReadable verify key (raw :: raws) 0 = false := by
  simp [isReadable, h, Except.isOk, Except.toBool]

theorem refusals_of_ok (h : LoadedBlock.load verify key raw = .ok x) (raws : List RawBlock) :
    refusals verify key (raw :: raws) = refusals verify key raws := by
  simp only [refusals, List.filterMap_cons, h]

theorem refusals_of_error (h : LoadedBlock.load verify key raw = .error e)
    (raws : List RawBlock) :
    refusals verify key (raw :: raws) = e :: refusals verify key raws := by
  simp only [refusals, List.filterMap_cons, h]

end Load

/-- Whoever can read the block finds its pieces. -/
theorem Shows.unpackAll_eq {key k : Option VolumeKey} {n : Nat} {b : Bytes} {ps : List Piece}
    (h : Shows key n b ps) {verify : Bool} {raw : RawBlock} (hr : raw.bytes = b)
    (hk : k = key ∨ k = none) {x : LoadedBlock} (hx : LoadedBlock.load verify k raw = .ok x)
    (a : Assembler) : a.unpackAll x = a.receiveAll n.toUInt32 ps := by
  obtain ⟨address, bytes⟩ := raw
  subst hr
  obtain ⟨y, hy, hall, hnone⟩ := h.load verify address
  have hxy : x = y := by
    rcases hk with rfl | rfl
    · rw [hy] at hx
      cases hx
      rfl
    · rcases hnone with hnone | hnone
      · rw [hnone] at hx
        cases hx
        rfl
      · rw [hnone] at hx
        cases hx
  rw [hxy]
  exact hall a

namespace VolumeReader
variable {σ : Type} {r : VolumeReader σ} {key : Option VolumeKey} {n : Nat} {raw : RawBlock}

/-- A block that is not refused is taken piece by piece. -/
theorem receive_shows {b : Bytes} {ps : List Piece} (hb : Shows key n b ps) (hr : raw.bytes = b)
    (hk : r.key = key ∨ r.key = none) {x : LoadedBlock}
    (hx : LoadedBlock.load r.verify r.key raw = .ok x) {rs : List Record}
    (hrs : (r.assembler.receiveAll n.toUInt32 ps).2 = rs.map .ok) :
    r.receive raw = ({ r with
      assembler := (r.assembler.receiveAll n.toUInt32 ps).1
      stats := { r.stats with blocks := r.stats.blocks + 1 } }, rs.map .record) := by
  have hall := hb.unpackAll_eq hr hk hx
  have hbroken : (rs.map Except.ok).countP (fun x : Except RecordError Record => !Except.isOk x)
      = 0 := by
    rw [List.countP_eq_zero]
    intro x hx
    obtain ⟨z, -, rfl⟩ := List.mem_map.mp hx
    simp [Except.isOk, Except.toBool]
  simp only [receive, hx, hall, hrs, hbroken, Finding.map_ofUnpacked_ok, Nat.add_zero]

theorem assembler_dropPending (r : VolumeReader σ) :
    r.dropPending.assembler = r.assembler.discard := by
  rw [dropPending]
  split
  · rfl
  · next h =>
    obtain ⟨source, verify, k, current, ⟨pending, records, orphans⟩, stats⟩ := r
    simp only [Assembler.isPending, Option.not_isSome_iff_eq_none] at h
    simp only [Assembler.discard, h]

theorem verify_dropPending (r : VolumeReader σ) : r.dropPending.verify = r.verify := by
  rw [dropPending]
  split <;> rfl

theorem key_dropPending (r : VolumeReader σ) : r.dropPending.key = r.key := by
  rw [dropPending]
  split <;> rfl

theorem corruptBlocks_dropPending (r : VolumeReader σ) :
    r.dropPending.stats.corruptBlocks = r.stats.corruptBlocks := by
  rw [dropPending]
  split <;> rfl

/-- A whole volume is taken piece by piece. -/
theorem receiveAll_whole {bs : List Bytes} {qs : List Placed} (hq : ShowAll key n bs qs)
    {raws : List RawBlock} (hr : raws.map RawBlock.bytes = bs) (hk : r.key = key)
    {rs : List Record} (hrs : (r.assembler.meetAll (fun _ => true) qs).2 = rs.map .ok) :
    r.receiveAll raws = ({ r with
      assembler := (r.assembler.meetAll (fun _ => true) qs).1
      stats := { r.stats with blocks := r.stats.blocks + bs.length } }, rs.map .record) := by
  induction hq generalizing r raws rs with
  | nil n =>
    rw [List.map_eq_nil_iff] at hr
    subst hr
    have hnil := List.map_eq_nil_iff.mp hrs.symm
    subst hnil
    rfl
  | @block n b bs ps qs hb hq ih =>
    obtain ⟨raw, raws, rfl, hraw, hraws⟩ := List.map_eq_cons_iff.mp hr
    rw [Assembler.meetAll_append, Assembler.meetAll_block _ rfl] at hrs ⊢
    obtain ⟨xs, ys, rfl, hxs, hys⟩ := List.append_eq_map_iff.mp hrs
    obtain ⟨x, hx, -⟩ := hb.load r.verify raw.address
    have hload : LoadedBlock.load r.verify r.key raw = .ok x := by
      rw [hk, ← hx, ← hraw]
    have hfirst := receive_shows hb hraw (.inl hk) hload hxs.symm
    rw [receiveAll, hfirst]
    have hrest := ih (r := { r with
      assembler := (r.assembler.receiveAll n.toUInt32 ps).1
      stats := { r.stats with blocks := r.stats.blocks + 1 } }) hraws hk hys.symm
    simp only [hrest, List.length_cons, List.map_append, Nat.add_assoc, Nat.add_comm 1]

structure Recovers (r : VolumeReader σ) (raws : List RawBlock) (rs : List Record) : Prop where
  records : Finding.records (r.receiveAll raws).2 = rs
  failures : Finding.failures (r.receiveAll raws).2 = refusals r.verify r.key raws
  corruptBlocks : (r.receiveAll raws).1.stats.corruptBlocks
    = r.stats.corruptBlocks + (refusals r.verify r.key raws).length

theorem recovers_nil (r : VolumeReader σ) : r.Recovers [] [] := ⟨rfl, rfl, rfl⟩

def refused (r : VolumeReader σ) : VolumeReader σ :=
  { r with stats := { r.stats with
    blocks := r.stats.blocks + 1
    corruptBlocks := r.stats.corruptBlocks + 1 } }.dropPending

theorem verify_refused (r : VolumeReader σ) : r.refused.verify = r.verify := verify_dropPending _

theorem key_refused (r : VolumeReader σ) : r.refused.key = r.key := key_dropPending _

theorem corruptBlocks_refused (r : VolumeReader σ) :
    r.refused.stats.corruptBlocks = r.stats.corruptBlocks + 1 := corruptBlocks_dropPending _

theorem assembler_refused (r : VolumeReader σ) : r.refused.assembler = r.assembler.discard :=
  assembler_dropPending _

/-- A block that is refused is shown, and nothing is taken from it. -/
theorem Recovers.of_refused {e : Failure} (he : LoadedBlock.load r.verify r.key raw = .error e)
    {raws : List RawBlock} {rs : List Record} (h : r.refused.Recovers raws rs) :
    r.Recovers (raw :: raws) rs := by
  have hreceive : r.receive raw = (r.refused, [.damage e]) := by
    simp only [receive, he]
    rfl
  obtain ⟨hrecords, hfailures, hcount⟩ := h
  rw [verify_refused, key_refused] at hfailures hcount
  constructor
  · rw [receiveAll, hreceive, ← hrecords]
    rfl
  · rw [receiveAll, hreceive, refusals_of_error he, ← hfailures]
    rfl
  · rw [receiveAll, hreceive, refusals_of_error he, List.length_cons]
    simp only [hcount, corruptBlocks_refused]
    omega

/-- What is taken from a block comes before what is found in the blocks behind it. -/
theorem Recovers.of_taken {x : LoadedBlock} (hx : LoadedBlock.load r.verify r.key raw = .ok x)
    {a : Assembler} {stats : ReaderStats} {xs ys : List Record} {raws : List RawBlock}
    (hr : r.receive raw = ({ r with assembler := a, stats }, xs.map .record))
    (hs : stats.corruptBlocks = r.stats.corruptBlocks)
    (h : ({ r with assembler := a, stats } : VolumeReader σ).Recovers raws ys) :
    r.Recovers (raw :: raws) (xs ++ ys) := by
  obtain ⟨hrecords, hfailures, hcount⟩ := h
  constructor
  · rw [receiveAll, hr, Finding.records_append, Finding.records_map_record, hrecords]
  · rw [receiveAll, hr, Finding.failures_append, Finding.failures_map_record, List.nil_append,
      refusals_of_ok hx, hfailures]
  · rw [receiveAll, hr, refusals_of_ok hx, hcount, hs]

/-- What is left of a volume is taken piece by piece, and every refused block is shown. -/
theorem recovers_remains {kept : Nat → Bool} {bs : List Bytes} {qs : List Placed}
    (hq : ShowAll key n bs qs) {raws : List RawBlock} (hr : Remains r.verify r.key bs raws)
    (hk : r.key = key ∨ r.key = none)
    (hkept : ∀ i, kept (n + i) = isReadable r.verify r.key raws i) {rs : List Record}
    (hrs : (r.assembler.meetAll kept qs).2 = rs.map .ok) : r.Recovers raws rs := by
  induction hq generalizing r raws rs with
  | nil n =>
    have hnil := List.map_eq_nil_iff.mp hrs.symm
    subst hnil
    cases hr
    exact r.recovers_nil
  | @block n b bs ps qs hb hq ih =>
    have hnext {raw : RawBlock} {raws : List RawBlock}
        (h : ∀ i, kept (n + i) = isReadable r.verify r.key (raw :: raws) i) (i : Nat) :
        kept (n + 1 + i) = isReadable r.verify r.key raws i := by
      have hi := h (i + 1)
      rw [Nat.add_right_comm, Nat.add_assoc]
      exact hi
    have hrefused {raw : RawBlock} {raws : List RawBlock} {e : Failure}
        (he : LoadedBlock.load r.verify r.key raw = .error e)
        (hrest : Remains r.verify r.key bs raws)
        (h : ∀ i, kept (n + i) = isReadable r.verify r.key (raw :: raws) i) :
        r.Recovers (raw :: raws) rs := by
      have hlost : kept n = false := (h 0).trans (isReadable_of_error he raws)
      rw [Assembler.meetAll_append, Assembler.meetAll_lost _ hlost hb.filled] at hrs
      have hrecords : (r.refused.assembler.meetAll kept qs).2 = rs.map .ok := by
        rw [assembler_refused]
        simpa using hrs
      refine .of_refused he (ih ?_ ?_ ?_ hrecords)
      · rw [verify_refused, key_refused]
        exact hrest
      · rw [key_refused]
        exact hk
      · rw [verify_refused, key_refused]
        exact hnext h
    cases hr with
    | missing =>
      have hlost : ∀ q ∈ ps.map (.mk n) ++ qs, kept q.block = false := by
        intro q hmem
        have hle := (ShowAll.block hb hq).le_block hmem
        have hgone := hkept (q.block - n)
        rw [Nat.add_sub_cancel' hle] at hgone
        exact hgone
      rw [Assembler.meetAll_none r.assembler hlost] at hrs
      have hnil := List.map_eq_nil_iff.mp hrs.symm
      subst hnil
      exact r.recovers_nil
    | @intact _ _ raw raws hraw hrest =>
      rcases hload : LoadedBlock.load r.verify r.key raw with e | x
      · exact hrefused hload hrest hkept
      · have hthere : kept n = true := (hkept 0).trans (isReadable_of_ok hload raws)
        rw [Assembler.meetAll_append, Assembler.meetAll_block _ hthere] at hrs
        obtain ⟨xs, ys, rfl, hxs, hys⟩ := List.append_eq_map_iff.mp hrs
        have hfirst := receive_shows hb hraw hk hload hxs.symm
        apply Recovers.of_taken hload hfirst rfl
        apply ih
        · exact hrest
        · exact hk
        · exact hnext hkept
        · exact hys.symm
    | @refused _ _ raw raws e he hrest => exact hrefused he hrest hkept

end VolumeReader
end BackupVolume
