import BackupVolume.FileTree.Path
import Mathlib.Data.List.Induction

/-! # Names that are pushed onto paths

A name is a part of a path: it is not empty, and there is no slash in it. A path with names pushed
onto it has these names behind its own parts, and no slash at its end.
-/
namespace BackupVolume.FileTree.Path

theorem splitSlashes_cons (c : Char) (cs : List Char) :
    splitSlashes (c :: cs) = match splitSlashes cs with
      | [] => if c = '/' then [[], []] else [[c]]
      | p :: ps => if c = '/' then [] :: p :: ps else (c :: p) :: ps := rfl

theorem splitSlashes_ne_nil {cs : List Char} (h : cs ≠ []) : splitSlashes cs ≠ [] := by
  cases cs with
  | nil => exact absurd rfl h
  | cons c cs =>
    rw [splitSlashes_cons]
    repeat' split
    all_goals exact List.cons_ne_nil _ _

def splitOrEmpty (cs : List Char) : List (List Char) := if cs = [] then [[]] else splitSlashes cs

theorem splitSlashes_append (xs ys : List Char) :
    splitSlashes (xs ++ '/' :: ys) = splitOrEmpty xs ++ splitOrEmpty ys := by
  induction xs with
  | nil =>
    rw [List.nil_append, splitSlashes_cons, splitOrEmpty, if_pos rfl, splitOrEmpty]
    by_cases hy : ys = []
    · rw [hy, if_pos rfl]
      rfl
    · obtain ⟨p, ps, hp⟩ := List.exists_cons_of_ne_nil (splitSlashes_ne_nil hy)
      rw [if_neg hy, hp]
      rfl
  | cons c cs ih =>
    have hcons : splitOrEmpty (c :: cs) = splitSlashes (c :: cs) := if_neg (List.cons_ne_nil c cs)
    rw [List.cons_append, splitSlashes_cons, ih, hcons, splitSlashes_cons]
    by_cases hc : cs = []
    · rw [hc, splitOrEmpty, if_pos rfl]
      simp only [splitSlashes, List.foldr_nil, List.cons_append, List.nil_append]
      split <;> rfl
    · obtain ⟨p, ps, hp⟩ := List.exists_cons_of_ne_nil (splitSlashes_ne_nil hc)
      rw [splitOrEmpty, if_neg hc]
      simp only [hp, List.cons_append]
      split <;> rfl

theorem not_mem_of_mem_splitSlashes {cs p : List Char} (h : p ∈ splitSlashes cs) : '/' ∉ p := by
  induction cs generalizing p with
  | nil => cases h
  | cons c cs ih =>
    rw [splitSlashes_cons] at h
    rcases hcs : splitSlashes cs with _ | ⟨q, qs⟩
    all_goals
      rw [hcs] at ih
      simp only [hcs] at h
      split at h
    · rcases List.mem_cons.mp h with rfl | h
      · exact List.not_mem_nil
      · rw [List.mem_singleton.mp h]
        exact List.not_mem_nil
    · next hslash =>
      rw [List.mem_singleton.mp h]
      exact fun hmem => hslash (List.mem_singleton.mp hmem).symm
    · rcases List.mem_cons.mp h with rfl | h
      · exact List.not_mem_nil
      · exact ih h
    · next hslash =>
      rcases List.mem_cons.mp h with rfl | h
      · intro hmem
        rcases List.mem_cons.mp hmem with heq | hmem
        · exact hslash heq.symm
        · exact ih List.mem_cons_self hmem
      · exact ih (List.mem_cons_of_mem q h)

theorem splitSlashes_of_not_mem {cs : List Char} (h : '/' ∉ cs) (hne : cs ≠ []) :
    splitSlashes cs = [cs] := by
  induction cs with
  | nil => exact absurd rfl hne
  | cons c cs ih =>
    have hc : ¬c = '/' := fun heq => h (heq ▸ List.mem_cons_self)
    rw [splitSlashes_cons]
    by_cases hcs : cs = []
    · subst hcs
      exact if_neg hc
    · rw [ih (fun hmem => h (List.mem_cons_of_mem c hmem)) hcs]
      exact if_neg hc

structure IsName (s : String) : Prop where
  ne_nil : s.toList ≠ []
  slash : '/' ∉ s.toList

theorem isName_of_mem_partsOf {s part : String} (h : part ∈ partsOf s) : IsName part := by
  obtain ⟨p, hp, rfl⟩ := List.mem_map.mp h
  obtain ⟨hp, hne⟩ := List.mem_filter.mp hp
  constructor
  · rw [String.toList_ofList]
    intro hnil
    rw [hnil] at hne
    cases hne
  · rw [String.toList_ofList]
    exact not_mem_of_mem_splitSlashes hp

theorem filter_splitOrEmpty (cs : List Char) :
    (splitOrEmpty cs).filter (!·.isEmpty) = (splitSlashes cs).filter (!·.isEmpty) := by
  rw [splitOrEmpty]
  split
  · next hcs =>
    rw [hcs]
    rfl
  · rfl

/-- A name behind a slash is one more part. -/
theorem partsOf_append {s t n : String} {cs : List Char} (hn : IsName n)
    (hs : s.toList = cs ++ '/' :: n.toList)
    (ht : t.toList = cs ∨ t.toList = cs ++ ['/']) : partsOf s = partsOf t ++ [n] := by
  have hcs : (splitSlashes t.toList).filter (!·.isEmpty) = (splitSlashes cs).filter (!·.isEmpty) := by
    rcases ht with ht | ht
    · rw [ht]
    · rw [ht, splitSlashes_append, List.filter_append, filter_splitOrEmpty]
      exact List.append_nil _
  have hname : (splitSlashes n.toList).filter (!·.isEmpty) = [n.toList] := by
    rw [splitSlashes_of_not_mem hn.slash hn.ne_nil]
    exact List.filter_cons_of_pos (by simpa using hn.ne_nil)
  rw [partsOf, hs, splitSlashes_append, List.filter_append, filter_splitOrEmpty,
    filter_splitOrEmpty, hname, List.map_append, partsOf, hcs, List.map_singleton,
    String.ofList_toList]

theorem partsOf_push (path : String) {n : String} (hn : IsName n) :
    partsOf (push path n) = partsOf path ++ [n] := by
  rw [push]
  split
  · next hend =>
    rcases Bool.or_eq_true_iff.mp hend with hempty | hslash
    · rw [beq_iff_eq.mp hempty, partsOf, String.toList_append,
        splitSlashes_of_not_mem (by simpa using hn.slash) (by simpa using hn.ne_nil)]
      simp [partsOf, splitSlashes, hn.ne_nil]
    · obtain ⟨cs, hcs⟩ := List.getLast?_eq_some_iff.mp (beq_iff_eq.mp hslash)
      refine partsOf_append hn ?_ (.inr hcs)
      rw [String.toList_append, hcs, List.append_assoc]
      rfl
  · refine partsOf_append hn ?_ (.inl rfl)
    rw [String.toList_append, String.toList_append, List.append_assoc]
    rfl

theorem toList_push (path n : String) : ∃ middle, (push path n).toList
    = path.toList ++ (middle ++ n.toList) ∧ (path.toList = [] → middle = []) := by
  rw [push]
  split
  · exact ⟨[], String.toList_append, fun _ => rfl⟩
  · next hend =>
    refine ⟨['/'], ?_, ?_⟩
    · rw [String.toList_append, String.toList_append, List.append_assoc]
      rfl
    · intro hnil
      rw [String.toList_eq_nil_iff.mp hnil] at hend
      exact absurd rfl hend

theorem ofString_push (path : String) {n : String} (hn : IsName n) :
    ofString (push path n) = ⟨(ofString path).fromRoot, partsOf path ++ [n], false⟩ := by
  obtain ⟨middle, hpush, hmiddle⟩ := toList_push path n
  have hfirst : (push path n).toList.head? == some '/' ↔ path.toList.head? == some '/' := by
    rw [hpush]
    cases hpath : path.toList with
    | nil =>
      rw [hmiddle hpath, List.nil_append, List.nil_append]
      simp only [beq_iff_eq, List.head?_nil, reduceCtorEq, iff_false]
      exact fun h => hn.slash (List.mem_of_head? h)
    | cons c cs => rfl
  have hlast : ((push path n).toList.getLast? == some '/') = false := by
    rw [hpush, beq_eq_false_iff_ne, ← List.append_assoc, List.getLast?_append,
      List.getLast?_eq_some_getLast hn.ne_nil]
    intro h
    exact hn.slash (Option.some.inj h ▸ List.getLast_mem hn.ne_nil)
  rw [ofString, ofString, hlast, partsOf_push path hn, Bool.eq_iff_iff.mpr hfirst]

/-- A path with names pushed onto it. -/
theorem ofString_pushAll (path : String) {names : List String} (hn : ∀ n ∈ names, IsName n) :
    (ofString (names.foldl push path)).fromRoot = (ofString path).fromRoot ∧
      (ofString (names.foldl push path)).parts = (ofString path).parts ++ names ∧
      (names ≠ [] → (ofString (names.foldl push path)).isDirectory = false) := by
  induction names using List.reverseRecOn with
  | nil => exact ⟨rfl, (List.append_nil _).symm, fun h => absurd rfl h⟩
  | append_singleton names n ih =>
    obtain ⟨hroot, hparts, -⟩ := ih fun m hm => hn m (List.mem_append_left _ hm)
    rw [List.foldl_append, List.foldl_cons, List.foldl_nil,
      ofString_push _ (hn n List.mem_concat_self)]
    refine ⟨hroot, ?_, fun _ => rfl⟩
    rw [← List.append_assoc, ← hparts]
    rfl

end BackupVolume.FileTree.Path
