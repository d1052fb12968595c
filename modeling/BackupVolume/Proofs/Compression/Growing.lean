import BackupVolume.Proofs.Compression.Wrapping
import Mathlib.Algebra.Order.Ring.Nat

/-! # Room grows as far as it is needed

A decompressor that settles is tried in one size of room after the other, each twice the one before
until the cap is met, and the first size that is large enough is where the trying ends. Room of
every size there is begins with at least one octet, and nothing that is done to it takes it beyond
its cap.
-/
namespace BackupVolume.Compression

namespace Scratch

/-- Room that was made with this cap, and was grown and used since. -/
inductive IsMade (cap : Nat) : Scratch → Prop
  | new (initial : Nat) : IsMade cap (ofSizes initial cap)
  | grown {s t : Scratch} : IsMade cap s → s.grow? = some t → IsMade cap t
  | used {s : Scratch} (attempt : Nat → Except CodecError (Option Bytes)) :
      IsMade cap s → IsMade cap (s.fit attempt).2

theorem IsMade.cap_eq {cap : Nat} {s : Scratch} (h : s.IsMade cap) : s.cap = max cap 1 := by
  induction h with
  | new initial => rfl
  | grown _ hgrow ih => exact (size_lt_of_grow? hgrow).2.trans ih
  | used attempt _ ih => exact (cap_fit attempt _).trans ih

/-- The room after so many doublings, none of which goes beyond the cap. -/
def stage (s : Scratch) (k : Nat) : Nat := min (2 ^ k * s.size) s.cap

theorem stage_zero (s : Scratch) : s.stage 0 = s.size := by
  have := s.size_le_cap
  rw [stage]
  omega

theorem stage_le_cap (s : Scratch) (k : Nat) : s.stage k ≤ s.cap := Nat.min_le_right _ _

theorem size_of_grow? {s t : Scratch} (h : s.grow? = some t) : t.size = min (2 * s.size) s.cap := by
  unfold grow? at h
  split at h
  · cases h
  · cases h
    rfl

/-- Where a doubling was cut off at the cap, all that follow are cut off there too. -/
theorem stage_of_grow? {s t : Scratch} (h : s.grow? = some t) (k : Nat) :
    t.stage k = s.stage (k + 1) := by
  have hpow : 1 ≤ 2 ^ k := Nat.one_le_two_pow
  have hsucc : 2 ^ (k + 1) * s.size = 2 ^ k * (2 * s.size) := by
    rw [pow_succ, Nat.mul_assoc]
  unfold stage
  rw [size_of_grow? h, (size_lt_of_grow? h).2, hsucc]
  rcases Nat.le_total (2 * s.size) s.cap with hle | hle
  · rw [Nat.min_eq_left hle]
  · have hcap : s.cap ≤ 2 ^ k * s.cap := Nat.le_mul_of_pos_left s.cap hpow
    have hdouble : 2 ^ k * s.cap ≤ 2 ^ k * (2 * s.size) := Nat.mul_le_mul_left _ hle
    rw [Nat.min_eq_right hle]
    omega

theorem size_eq_cap_of_grow? {s : Scratch} (h : s.grow? = none) : s.size = s.cap := by
  have := s.size_le_cap
  unfold grow? at h
  split at h
  · omega
  · cases h

/-- The size at which the trying ends: the first stage that is large enough, or the cap where no
stage is. -/
inductive EndsAt (s : Scratch) (need : Nat) : Nat → Prop
  | reached (k : Nat) : need ≤ s.stage k → (∀ i < k, s.stage i < need) → EndsAt s need (s.stage k)
  | exhausted : (∀ k, s.stage k < need) → EndsAt s need s.cap

theorem EndsAt.of_size {s : Scratch} {need : Nat} (h : need ≤ s.size) : s.EndsAt need s.size := by
  have hreached : s.EndsAt need (s.stage 0) := by
    apply EndsAt.reached 0
    · rwa [s.stage_zero]
    · intro i hi
      omega
  rwa [s.stage_zero] at hreached

theorem EndsAt.of_grow? {s t : Scratch} {need size : Nat} (hsize : s.size < need)
    (hgrow : s.grow? = some t) (h : t.EndsAt need size) : s.EndsAt need size := by
  have hstage := stage_of_grow? hgrow
  cases h with
  | reached k hk hbefore =>
    rw [hstage] at hk ⊢
    apply EndsAt.reached (k + 1) hk
    intro i hi
    cases i with
    | zero => rwa [s.stage_zero]
    | succ i =>
      rw [← hstage]
      exact hbefore i (by omega)
  | exhausted hall =>
    rw [(size_lt_of_grow? hgrow).2]
    apply EndsAt.exhausted
    intro k
    cases k with
    | zero => rwa [s.stage_zero]
    | succ k =>
      rw [← hstage]
      exact hall k

/-- There is one size at which the trying can end. -/
theorem EndsAt.unique {s : Scratch} {need size other : Nat} (h : s.EndsAt need size)
    (h' : s.EndsAt need other) : size = other := by
  cases h with
  | reached k hk hbefore =>
    cases h' with
    | reached l hl hbefore' =>
      rcases Nat.lt_trichotomy k l with hlt | rfl | hgt
      · have := hbefore' k hlt
        omega
      · rfl
      · have := hbefore l hgt
        omega
    | exhausted hall =>
      have := hall k
      omega
  | exhausted hall =>
    cases h' with
    | reached l hl _ =>
      have := hall l
      omega
    | exhausted _ => rfl

/-- An answer in some room tells that the room is as large as is needed, and no answer that it is
not. -/
theorem endsAt_fit {attempt : Nat → Except CodecError (Option Bytes)} {need : Nat}
    {result : Except CodecError Bytes} (h : Settles attempt need result) (s : Scratch) :
    s.EndsAt need (s.fit attempt).2.size := by
  have hless {room : Nat} : attempt room = .ok none ↔ room < need := by
    rw [h]
    constructor
    · intro hnone
      by_contra hroom
      rw [if_neg hroom] at hnone
      cases result <;> cases hnone
    · intro hroom
      rw [if_pos hroom]
  fun_induction fit attempt s with
  | case1 s answer ha | case2 s answer ha =>
    apply EndsAt.of_size
    by_contra hsize
    rw [hless.mpr (by omega)] at ha
    cases ha
  | case3 s ha t hgrow ih => exact ih.of_grow? (hless.mp ha) hgrow
  | case4 s ha hgrow =>
    have hcap : s.cap < need := size_eq_cap_of_grow? hgrow ▸ hless.mp ha
    have hexhausted : s.EndsAt need s.cap := by
      apply EndsAt.exhausted
      intro k
      exact Nat.lt_of_le_of_lt (s.stage_le_cap k) hcap
    rwa [← size_eq_cap_of_grow? hgrow] at hexhausted

end Scratch

/-- A codec that asks for more room below some size, and comes to the same result from there on,
gives that result exactly where the cap of the room allows the size, and is told to be exhausted at
the cap otherwise, whatever was done to the room before. The cap stays; the room has at least one
octet, is within the cap, has not shrunk, and has the first of the doubled sizes that was large
enough, or the cap where none was. -/
theorem grows_until_settled {c : Codec} {packed : Bytes} {need : Nat}
    {result : Except CodecError Bytes} (settles : Settles (c.decompress packed) need result)
    {cap : Nat} {s : Scratch} (made : s.IsMade cap) :
    ∃ t, s.fit (c.decompress packed)
        = (if need ≤ s.cap then result else .error (.bufferExhausted s.cap), t) ∧
      s.cap = max cap 1 ∧ t.cap = s.cap ∧ 1 ≤ t.size ∧ t.size ≤ t.cap ∧ s.size ≤ t.size ∧
      s.EndsAt need t.size := by
  obtain ⟨t, hfit, hcap⟩ := s.fit_of_settles settles
  have ht : (s.fit (c.decompress packed)).2 = t := by rw [hfit]
  have hgrows : s.size ≤ t.size := ht ▸ (s.grows_fit _).1
  have hends : s.EndsAt need t.size := ht ▸ s.endsAt_fit settles
  exact ⟨t, hfit, made.cap_eq, hcap, t.size_pos, t.size_le_cap, hgrows, hends⟩

/-- Room for one octet, under caps that allow three octets and one, and data of two octets. -/
theorem grows_until_settled_lzo1x :
    let attempt := CodecId.lzo1x.codec.decompress (Lzo1x.compress [5, 6])
    Settles attempt 2 (.ok [5, 6]) ∧
      (Scratch.ofSizes 0 3).IsMade 3 ∧ (Scratch.ofSizes 7 0).IsMade 0 ∧
      (∃ t, (Scratch.ofSizes 0 3).fit attempt = (.ok [5, 6], t) ∧ t.size = 2) ∧
      ∃ t, (Scratch.ofSizes 7 0).fit attempt = (.error (.bufferExhausted 1), t) ∧ t.size = 1 := by
  intro attempt
  have hmade : (Scratch.ofSizes 0 3).IsMade 3 := .new 0
  have hnarrow : (Scratch.ofSizes 7 0).IsMade 0 := .new 7
  refine ⟨settles_lzo1x, hmade, hnarrow, ?_, ?_⟩
  · obtain ⟨t, hfit, -, -, -, -, -, hends⟩ := grows_until_settled settles_lzo1x hmade
    have hsecond : (Scratch.ofSizes 0 3).EndsAt 2 2 := .reached 1 (by decide) (by decide)
    exact ⟨t, hfit, hends.unique hsecond⟩
  · obtain ⟨t, hfit, -, hcap, hpos, hle, -, -⟩ := grows_until_settled settles_lzo1x hnarrow
    rw [hcap] at hle
    exact ⟨t, hfit, Nat.le_antisymm hle hpos⟩

end BackupVolume.Compression
