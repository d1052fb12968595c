import BackupVolume.Device.Octets

/-! # Readers that deliver

A reader that does not fail hands out its octets in portions that it chooses itself, and may be
interrupted in between. A buffer that is filled from it does not show where one portion ended and
the next one began.
-/
namespace BackupVolume.OctetReader
variable {ρ : Type} [OctetReader ρ]

/-- These octets and no others come from the reader, in portions of any size that never exceed what
was asked for. Only at their end does it hand out none, and at no point does it fail. -/
inductive Delivers : ρ → Bytes → Prop
  | intro {r : ρ} {bs : Bytes}
    (sound : ∀ most s fault, 0 < most → read r most ≠ (s, .failed fault))
    (ends : ∀ most s, 0 < most → read r most = (s, .data []) → bs = [])
    (portion : ∀ most s part, 0 < most → read r most = (s, .data part) →
      part <+: bs ∧ part.length ≤ most)
    (later : ∀ most s part, 0 < most → part ≠ [] → read r most = (s, .data part) →
      Delivers s (bs.drop part.length))
    (again : ∀ most s, 0 < most → read r most = (s, .interrupted) → Delivers s bs) :
    Delivers r bs

theorem exists_fillFrom {r : ρ} {bs : Bytes} (h : Delivers r bs) (n : Nat)
    (buffer : Array UInt8) :
    ∃ s, fillFrom r n buffer = (s, .ok (buffer.toList ++ bs.take n)) ∧
      (n ≤ bs.length → Delivers s (bs.drop n)) := by
  fun_induction fillFrom r n buffer generalizing bs with
  | case1 r buffer => exact ⟨r, by rw [List.take_zero, List.append_nil], fun _ => h⟩
  | case2 r n buffer hn s e hread =>
    obtain ⟨sound⟩ := h
    exact absurd hread (sound n s e (Nat.pos_of_ne_zero hn))
  | case3 r n buffer hn s hread ih =>
    obtain ⟨-, -, -, -, again⟩ := h
    exact ih (again n s (Nat.pos_of_ne_zero hn) hread)
  | case4 r n buffer hn s hread =>
    obtain ⟨-, ends⟩ := h
    obtain rfl := ends n s (Nat.pos_of_ne_zero hn) hread
    exact ⟨s, by rw [List.take_nil, List.append_nil], fun hle => absurd (Nat.le_zero.mp hle) hn⟩
  | case5 r n buffer hn s b part hread ih =>
    obtain ⟨-, -, portion, later⟩ := h
    obtain ⟨⟨rest, rfl⟩, hmost⟩ := portion n s _ (Nat.pos_of_ne_zero hn) hread
    have hrest := later n s _ (Nat.pos_of_ne_zero hn) (List.cons_ne_nil b part) hread
    rw [List.drop_left] at hrest
    obtain ⟨t, hfill, hleft⟩ := ih hrest
    have htake : (b :: part).take n = b :: part := List.take_of_length_le hmost
    have hdrop : (b :: part).drop n = [] := List.drop_eq_nil_of_le hmost
    refine ⟨t, ?_, fun hle => ?_⟩
    · rw [hfill, Array.toList_appendList, List.append_assoc, List.take_append, htake,
        List.length_cons]
    · rw [List.drop_append, hdrop, List.nil_append, List.length_cons]
      refine hleft ?_
      simp only [List.length_append, List.length_cons] at hle
      omega

/-- A buffer gets the octets that come next, and the rest comes later. -/
theorem Delivers.fill {r : ρ} {bs : Bytes} (h : Delivers r bs) (n : Nat) :
    ∃ s, OctetReader.fill r n = (s, .ok (bs.take n)) ∧ (n ≤ bs.length → Delivers s (bs.drop n)) :=
  exists_fillFrom h n #[]

theorem delivers_self (bs : Bytes) : Delivers bs bs := by
  induction hlength : bs.length using Nat.strongRecOn generalizing bs with
  | ind n ih =>
    have hread (most : Nat) : read bs most = (bs.drop most, .data (bs.take most)) := rfl
    refine .intro (fun most s fault _ h => ?_) (fun most s hmost h => ?_)
      (fun most s part _ h => ?_) (fun most s part hmost hpart h => ?_) (fun most s _ h => ?_)
    · cases (hread most).symm.trans h
    · simp only [hread, Prod.mk.injEq, Portion.data.injEq] at h
      exact (List.take_eq_nil_iff.mp h.2).resolve_left (Nat.ne_of_gt hmost)
    · simp only [hread, Prod.mk.injEq, Portion.data.injEq] at h
      exact h.2 ▸ ⟨List.take_prefix most bs, List.length_take_le most bs⟩
    · simp only [hread, Prod.mk.injEq, Portion.data.injEq] at h
      have hpos := List.length_pos_iff.mpr hpart
      rw [← h.2, List.length_take] at hpos
      have hdrop : bs.drop part.length = bs.drop most := by
        rw [← h.2, List.length_take]
        rcases Nat.le_total most bs.length with hle | hle
        · rw [Nat.min_eq_left hle]
        · rw [Nat.min_eq_right hle, List.drop_length, List.drop_eq_nil_of_le hle]
      rw [hdrop, ← h.1]
      exact ih _ (by rw [List.length_drop]; omega) _ rfl
    · cases (hread most).symm.trans h

end BackupVolume.OctetReader
