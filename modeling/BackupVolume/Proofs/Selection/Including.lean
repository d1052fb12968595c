import Mathlib.Data.List.TakeWhile
import Mathlib.Data.String.Basic
import BackupVolume.Selection.PathFilter

/-! # Which names are included

A name is included through itself or through a directory above it. Looking up one directory after
the other amounts to comparing whole components: an include covers the names that are the same up to
slashes at the end, and those that go on with a slash behind it.
-/
namespace BackupVolume.Selection

/-- What is left of a name without the slashes at its end; a name of a single octet is left as it
is. -/
structure Strips (name : String) (cs : List Char) : Prop where
  short : name.utf8ByteSize ≤ 1 → cs = name.toList
  long : 1 < name.utf8ByteSize →
    (∃ n, name.toList = cs ++ List.replicate n '/') ∧ cs.getLast? ≠ some '/'

/-- Whole components of the name are the include: it is the name or a directory above it. -/
def Covers (i name : String) : Prop :=
  i = "/" ∨ ∃ s t, Strips i s ∧ Strips name t ∧ (s = t ∨ s ++ ['/'] <+: t)

section Slashes
variable {cs : List Char}

theorem exists_withoutSlashes (cs : List Char) :
    ∃ n, cs = withoutSlashes cs ++ List.replicate n '/' := by
  have hslashes : cs.reverse.takeWhile (· == '/')
      = List.replicate (cs.reverse.takeWhile (· == '/')).length '/' := by
    apply List.eq_replicate_iff.mpr
    refine ⟨rfl, ?_⟩
    intro c hc
    simpa using List.mem_takeWhile_imp hc
  have hsplit := congrArg List.reverse
    (List.takeWhile_append_dropWhile (p := (· == '/')) (l := cs.reverse))
  rw [List.reverse_append, List.reverse_reverse, hslashes, List.reverse_replicate] at hsplit
  exact ⟨_, hsplit.symm⟩

theorem getLast?_withoutSlashes (cs : List Char) : (withoutSlashes cs).getLast? ≠ some '/' := by
  intro h
  rw [withoutSlashes, List.getLast?_reverse] at h
  have hfirst := List.head?_dropWhile_not (· == '/') cs.reverse
  rw [h] at hfirst
  simp at hfirst

/-- Nothing else is left of a name that does not end with a slash. -/
theorem withoutSlashes_append (hc : cs.getLast? ≠ some '/') (n : Nat) :
    withoutSlashes (cs ++ List.replicate n '/') = cs := by
  rw [withoutSlashes, List.reverse_append, List.reverse_replicate,
    List.dropWhile_append_of_pos (by simp)]
  cases hcs : cs.reverse with
  | nil => simpa using hcs.symm
  | cons c rest =>
    have hlast : c ≠ '/' := by
      rintro rfl
      rw [List.reverse_eq_cons_iff] at hcs
      apply hc
      rw [hcs]
      simp
    rw [List.dropWhile_cons_of_neg (by simpa using hlast), ← hcs, List.reverse_reverse]

end Slashes

/-- Only single characters of one octet are left as they are, and all others have no slash to be
taken away or more than one character. -/
theorem strips_stripped (name : String) : Strips name (stripped name.toList) := by
  have hsize : name.utf8ByteSize = String.utf8Len name.toList := by
    rw [← String.utf8ByteSize_ofList, String.ofList_toList]
  rcases hcs : name.toList with _ | ⟨c, _ | ⟨d, rest⟩⟩
  · rw [hcs] at hsize
    constructor
    · intro _
      rw [hcs]
      rfl
    · intro hlong
      rw [hsize] at hlong
      simp at hlong
  · rw [hcs, String.utf8Len_cons] at hsize
    constructor
    · intro _
      rw [hcs]
      rfl
    · intro hlong
      have hslash : c ≠ '/' := by
        rintro rfl
        rw [hsize] at hlong
        exact absurd hlong (by decide)
      refine ⟨⟨0, by rw [hcs]; rfl⟩, ?_⟩
      simpa [stripped] using hslash
  · rw [hcs, String.utf8Len_cons, String.utf8Len_cons] at hsize
    have hstripped : stripped (c :: d :: rest) = withoutSlashes (c :: d :: rest) := by
      rw [stripped, if_pos (by simp)]
    constructor
    · intro hshort
      have hfirst := c.utf8Size_pos
      have hsecond := d.utf8Size_pos
      omega
    · intro _
      rw [hstripped, hcs]
      exact ⟨exists_withoutSlashes _, getLast?_withoutSlashes _⟩

/-- There is only one way to take the slashes away. -/
theorem strips_iff {name : String} {cs : List Char} :
    Strips name cs ↔ cs = stripped name.toList := by
  constructor
  · intro h
    have hown := strips_stripped name
    by_cases hsize : name.utf8ByteSize ≤ 1
    · rw [h.short hsize, hown.short hsize]
    · have hlong : 1 < name.utf8ByteSize := Nat.lt_of_not_le hsize
      obtain ⟨⟨m, hm⟩, hlast⟩ := h.long hlong
      obtain ⟨⟨n, hn⟩, hend⟩ := hown.long hlong
      calc cs = withoutSlashes name.toList := by rw [hm, withoutSlashes_append hlast m]
        _ = withoutSlashes (stripped name.toList ++ List.replicate n '/') := by rw [← hn]
        _ = stripped name.toList := withoutSlashes_append hend n
  · rintro rfl
    exact strips_stripped name

theorem Strips.exists_slashes {name : String} {cs : List Char} (h : Strips name cs) :
    ∃ n, name.toList = cs ++ List.replicate n '/' := by
  by_cases hsize : name.utf8ByteSize ≤ 1
  · exact ⟨0, by rw [h.short hsize]; simp⟩
  · exact (h.long (Nat.lt_of_not_le hsize)).1

theorem stripped_eq_slash_iff {name : String} : stripped name.toList = ['/'] ↔ name = "/" := by
  constructor
  · intro h
    have hown := strips_stripped name
    rw [h] at hown
    by_cases hsize : name.utf8ByteSize ≤ 1
    · exact String.toList_inj.mp (hown.short hsize).symm
    · exact absurd rfl (hown.long (Nat.lt_of_not_le hsize)).2
  · rintro rfl
    rfl

theorem Strips.getLast?_ne {name : String} {cs : List Char} (h : Strips name cs)
    (hname : name ≠ "/") : cs.getLast? ≠ some '/' := by
  intro hlast
  have hcs := strips_iff.mp h
  by_cases hmany : 1 < name.toList.length
  · rw [stripped, if_pos hmany] at hcs
    rw [hcs] at hlast
    exact getLast?_withoutSlashes _ hlast
  · rw [stripped, if_neg hmany] at hcs
    apply hname
    rw [← stripped_eq_slash_iff, stripped, if_neg hmany, ← hcs]
    obtain ⟨front, rfl⟩ := List.getLast?_eq_some_iff.mp hlast
    rw [← hcs, List.length_append, List.length_singleton] at hmany
    have hfront : front = [] := List.length_eq_zero_iff.mp (by omega)
    rw [hfront, List.nil_append]

section Cover
variable {i : String} {s : List Char} (hs : Strips i s)
include hs

theorem covers_below (below : List Char) : Covers i (String.ofList (s ++ '/' :: below)) := by
  by_cases hi : i = "/"
  · exact .inl hi
  have hlast := hs.getLast?_ne hi
  obtain ⟨n, hbelow⟩ := exists_withoutSlashes below
  have hrest := getLast?_withoutSlashes below
  refine .inr ⟨s, _, hs, strips_stripped _, ?_⟩
  rw [String.toList_ofList, hbelow]
  cases hparts : withoutSlashes below with
  | nil =>
    -- Nothing but slashes stands behind the include.
    have hname : s ++ '/' :: ([] ++ List.replicate n '/') = s ++ List.replicate (n + 1) '/' := rfl
    rw [hname]
    by_cases hmany : 1 < (s ++ List.replicate (n + 1) '/').length
    · left
      rw [stripped, if_pos hmany, withoutSlashes_append hlast]
    · right
      rw [List.length_append, List.length_replicate] at hmany
      obtain rfl : s = [] := List.length_eq_zero_iff.mp (by omega)
      obtain rfl : n = 0 := by omega
      exact List.prefix_rfl
  | cons c rest =>
    right
    have hname : s ++ '/' :: (c :: rest ++ List.replicate n '/')
        = (s ++ '/' :: c :: rest) ++ List.replicate n '/' := by simp
    have hend : (s ++ '/' :: c :: rest).getLast? ≠ some '/' := by
      rw [hparts] at hrest
      simpa [List.getLast?_append, List.getLast?_cons_cons] using hrest
    have hmany : 1 < ((s ++ '/' :: c :: rest) ++ List.replicate n '/').length := by
      simp only [List.length_append, List.length_cons]
      omega
    rw [hname, stripped, if_pos hmany, withoutSlashes_append hend]
    exact ⟨c :: rest, by simp⟩

/-- A name that goes on with another character is not covered. -/
theorem not_covers_sibling (hi : i ≠ "/") {c : Char} (hc : c ≠ '/') (rest : List Char) :
    ¬Covers i (String.ofList (s ++ c :: rest)) := by
  rintro (hroot | ⟨s', t, hs', ht, hst⟩)
  · exact hi hroot
  obtain rfl : s' = s := (strips_iff.mp hs').trans (strips_iff.mp hs).symm
  obtain ⟨n, hn⟩ := ht.exists_slashes
  rw [String.toList_ofList] at hn
  rcases hst with rfl | ⟨below, rfl⟩
  · have hrest := List.append_cancel_left hn
    have hmem : c ∈ List.replicate n '/' := by
      rw [← hrest]
      exact List.mem_cons_self
    exact hc (List.eq_of_mem_replicate hmem)
  · rw [List.append_assoc, List.append_assoc] at hn
    have hrest := List.append_cancel_left hn
    exact hc (List.cons.inj hrest).1

end Cover

section Above
variable {cs qs : List Char}

theorem not_mem_of_parentReversed? (h : parentReversed? cs = none) : '/' ∉ cs := by
  rw [parentReversed?] at h
  split at h
  · next hall =>
    intro hslash
    simpa using List.dropWhile_eq_nil_iff.mp hall '/' hslash
  · cases h

/-- The next directory above stands before the last slash. -/
theorem exists_of_parentReversed? (h : parentReversed? cs = some qs) :
    ∃ front, '/' ∉ front ∧ cs = front ++ '/' :: qs := by
  rw [parentReversed?] at h
  have hsplit := List.takeWhile_append_dropWhile (p := (· != '/')) (l := cs)
  split at h
  · cases h
  · next c rest hdrop =>
    cases h
    have hslash : c = '/' := by
      have hfirst := List.head?_dropWhile_not (· != '/') cs
      rw [hdrop] at hfirst
      simpa using hfirst
    rw [hdrop, hslash] at hsplit
    refine ⟨_, ?_, hsplit.symm⟩
    intro hmem
    simpa using List.mem_takeWhile_imp hmem

/-- A slash that is not the first one behind `front` lies behind that one. -/
theorem suffix_slash_iff {front ps : List Char} (hfront : '/' ∉ front) :
    '/' :: ps <:+ front ++ '/' :: qs ↔ ps = qs ∨ '/' :: ps <:+ qs := by
  constructor
  · intro hsuffix
    rcases List.suffix_or_suffix_of_suffix hsuffix (List.suffix_append front _) with hs | hs
    · rcases List.suffix_cons_iff.mp hs with heq | hs
      · exact .inl (List.cons.inj heq).2
      · exact .inr hs
    · obtain ⟨between, hbetween⟩ := hs
      cases between with
      | nil => exact .inl (List.cons.inj hbetween).2.symm
      | cons c between =>
        obtain ⟨start, hstart⟩ := hsuffix
        rw [← hbetween, List.cons_append] at hstart
        obtain ⟨rfl, -⟩ := List.cons.inj hbetween
        have hall : start ++ ('/' :: between) ++ '/' :: qs = front ++ '/' :: qs := by
          rw [← hstart]
          simp
        exact absurd (by rw [← List.append_cancel_right hall]; simp) hfront
  · rintro (rfl | hbehind)
    · exact List.suffix_append front _
    · exact (hbehind.trans (List.suffix_cons '/' qs)).trans (List.suffix_append front _)

/-- The directories above a name are what stands before its slashes. -/
theorem mem_parentsReversed_iff {ps : List Char} : ps ∈ parentsReversed cs ↔ '/' :: ps <:+ cs := by
  fun_induction parentsReversed cs with
  | case1 cs h =>
    constructor
    · intro hmem
      cases hmem
    · intro hsuffix
      exact absurd (hsuffix.subset List.mem_cons_self) (not_mem_of_parentReversed? h)
  | case2 cs qs h ih =>
    obtain ⟨front, hfront, rfl⟩ := exists_of_parentReversed? h
    rw [List.mem_cons, ih, suffix_slash_iff hfront]

end Above

theorem mem_parents_iff {cs ps : List Char} : ps ∈ parents cs ↔ ps ++ ['/'] <+: cs := by
  have hreverse : ps ∈ parents cs ↔ ps.reverse ∈ parentsReversed cs.reverse := by
    rw [parents, List.mem_map]
    constructor
    · rintro ⟨qs, hqs, rfl⟩
      rwa [List.reverse_reverse]
    · intro h
      exact ⟨ps.reverse, h, List.reverse_reverse ps⟩
  rw [hreverse, mem_parentsReversed_iff, ← List.reverse_suffix, List.reverse_append]
  rfl

namespace PathFilter
variable {includes excludes : List String} {f : PathFilter}

theorem includes_ofPatterns (hf : ofPatterns includes excludes = .ok f) :
    f.includes = includes.map fun s => stripped s.toList := by
  unfold ofPatterns at hf
  simp only [bind, Except.bind, pure, Except.pure] at hf
  split at hf
  · cases hf
  · cases hf
    rfl

theorem isIncluded_iff (hf : ofPatterns includes excludes = .ok f) (name : String) :
    f.isIncluded name = true ↔ includes = [] ∨ ∃ i ∈ includes, Covers i name := by
  have hcovers : ∀ i, Covers i name ↔ stripped i.toList = stripped name.toList ∨
      stripped i.toList = ['/'] ∨ stripped i.toList ∈ parents (stripped name.toList) := by
    intro i
    rw [stripped_eq_slash_iff, mem_parents_iff]
    constructor
    · rintro (hroot | ⟨s, t, hs, ht, hst⟩)
      · exact .inr (.inl hroot)
      · rw [strips_iff.mp hs, strips_iff.mp ht] at hst
        rcases hst with hsame | hbelow
        · exact .inl hsame
        · exact .inr (.inr hbelow)
    · rintro (hsame | hroot | hbelow)
      · exact .inr ⟨_, _, strips_stripped i, strips_stripped name, .inl hsame⟩
      · exact .inl hroot
      · exact .inr ⟨_, _, strips_stripped i, strips_stripped name, .inr hbelow⟩
  rw [isIncluded, includes_ofPatterns hf]
  simp only [Bool.or_eq_true, List.isEmpty_iff, List.map_eq_nil_iff, List.any_map, List.any_eq_true,
    Function.comp_apply, beq_iff_eq, List.contains_iff_mem, List.mem_map, hcovers]
  constructor
  · rintro ((hnil | ⟨i, hi, hsame | hroot⟩) | ⟨ps, hps, i, hi, rfl⟩)
    · exact .inl hnil
    · exact .inr ⟨i, hi, .inl hsame⟩
    · exact .inr ⟨i, hi, .inr (.inl hroot)⟩
    · exact .inr ⟨i, hi, .inr (.inr hps)⟩
  · rintro (hnil | ⟨i, hi, hsame | hroot | hps⟩)
    · exact .inl (.inl hnil)
    · exact .inl (.inr ⟨i, hi, .inl hsame⟩)
    · exact .inl (.inr ⟨i, hi, .inr hroot⟩)
    · exact .inr ⟨_, hps, i, hi, rfl⟩

/-- Whole components decide: a name is included where there are no includes, or where one of them is
the name or a directory above it, up to slashes at the end. So all that is below an include is
included, and no name that shares only characters with includes is. -/
theorem isIncluded_components (hf : ofPatterns includes excludes = .ok f) :
    (∀ name, f.isIncluded name = true ↔ includes = [] ∨ ∃ i ∈ includes, Covers i name) ∧
    (∀ i ∈ includes, ∀ s below, Strips i s →
      f.isIncluded (String.ofList (s ++ '/' :: below)) = true) ∧
    ∀ name, includes ≠ [] →
      (∀ i ∈ includes, i ≠ "/" ∧ ∃ s c rest, Strips i s ∧ c ≠ '/' ∧
        name = String.ofList (s ++ c :: rest)) →
      f.isIncluded name = false := by
  refine ⟨isIncluded_iff hf, ?_, ?_⟩
  · intro i hi s below hs
    apply (isIncluded_iff hf _).mpr
    exact .inr ⟨i, hi, covers_below hs below⟩
  · intro name hne hsiblings
    apply Bool.eq_false_iff.mpr
    intro hincluded
    rcases (isIncluded_iff hf name).mp hincluded with hnil | ⟨i, hi, hcovers⟩
    · exact hne hnil
    · obtain ⟨hroot, s, c, rest, hs, hc, rfl⟩ := hsiblings i hi
      exact not_covers_sibling hs hroot hc rest hcovers

/-- A directory that is given with slashes at its end, and a user with a longer name. -/
theorem isIncluded_components_home :
    let home : PathFilter := { includes := ["/home/user".toList] }
    ofPatterns ["/home/user//"] [] = .ok home ∧ home.isIncluded "/home/user/docs" = true ∧
      home.isIncluded "/home/username" = false := by
  intro home
  have hstripped : stripped "/home/user//".toList = "/home/user".toList := by decide +kernel
  have hf : ofPatterns ["/home/user//"] [] = .ok home := by
    have hplain : ofPatterns ["/home/user//"] []
        = .ok { includes := [stripped "/home/user//".toList] } := rfl
    rw [hplain, hstripped]
  have hs : Strips "/home/user//" "/home/user".toList := strips_iff.mpr hstripped.symm
  have hdocs : "/home/user/docs" = String.ofList ("/home/user".toList ++ '/' :: "docs".toList) := by
    decide +kernel
  have hname : "/home/username" = String.ofList ("/home/user".toList ++ 'n' :: "ame".toList) := by
    decide +kernel
  obtain ⟨-, hbelow, hsibling⟩ := isIncluded_components hf
  refine ⟨hf, ?_, ?_⟩
  · rw [hdocs]
    exact hbelow "/home/user//" List.mem_cons_self _ _ hs
  · refine hsibling "/home/username" (List.cons_ne_nil _ _) ?_
    intro i hi
    obtain rfl := List.mem_singleton.mp hi
    exact ⟨by decide, _, 'n', _, hs, by decide, hname⟩

end PathFilter
end BackupVolume.Selection
