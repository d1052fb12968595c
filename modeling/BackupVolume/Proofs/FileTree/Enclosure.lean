import BackupVolume.Proofs.FileTree.Confinement

/-! # Operations below a directory

A path that has plain names behind a directory is made, opened, removed or changed inside that
directory, whatever links stand on the way, as long as none of them leads out. Only a link that is
made, or given another name, may lead out afterwards.
-/
namespace BackupVolume.FileTree

structure Path.Descends (n : String) : Prop where
  isName : IsName n
  ne_dot : n ≠ "."
  ne_up : n ≠ ".."

theorem not_mem_of_descends {names : List String} (hn : ∀ n ∈ names, Path.Descends n) :
    ".." ∉ names := fun hmem => (hn ".." hmem).ne_up rfl

theorem Place.IsInner.node {s : FileTree} {top i : Nat} {place : Place}
    (h : place.IsInner s top) (hi : place.node? = some i) : s.IsInner top i := by
  cases place with
  | unnamed d =>
    cases hi
    exact h
  | entry d name node => exact .inr (h.2 i hi)

theorem isDirectory_eq (t : FileTree) (i : Nat) : t.isDirectory i = (t.directory? i).isSome := by
  unfold isDirectory entries? directory?
  rcases t.nodes[i]? with _ | _ | _ | _ <;> rfl

section There
variable {s t : FileTree} {top d : Nat} {path : String}

theorem Confined.leadsTo (h : Confined s top t) (hp : s.LeadsTo path top) : t.LeadsTo path top := by
  obtain ⟨place, hplace, htop⟩ := hp
  rw [placeOf, ← h.working] at hplace
  exact ⟨place, (h.walks_base (walks_of_walk hplace) htop).walk, htop⟩

theorem makeParts_of_leadsTo (h : t.LeadsTo path d) :
    t.makeParts (Path.ofString path).fromRoot (Path.ofString path).parts
      = (t, .error alreadyExists) := by
  obtain ⟨place, hplace, hd⟩ := h
  rw [placeOf] at hplace
  obtain ⟨other, i, hother, hi⟩ := (walks_of_walk hplace).unfollowed hd
  unfold makeParts placeOf
  simp only [hother.walk]
  unfold makeAt
  split
  · cases hi
  · rfl

/-- A directory that is there is not made again. -/
theorem makeAll_of_leadsTo (h : t.LeadsTo path d) (hd : t.isDirectory d = true)
    (hl : path.utf8ByteSize ≤ maxPathLength) : t.makeAll path = (t, .ok ()) := by
  unfold makeAll
  simp only [if_neg (Nat.not_lt.mpr hl)]
  rcases hparts : (Path.ofString path).parts.reverse with _ | ⟨part, above⟩
  · rw [makeAllParts]
  · have hsame : (part :: above).reverse = (Path.ofString path).parts := by
      rw [← hparts, List.reverse_reverse]
    obtain ⟨place, hplace, hnode⟩ := id h
    have hthere : t.leadsToDirectory (Path.ofString path).fromRoot (Path.ofString path).parts
        = true := by
      rw [leadsToDirectory, hplace]
      simp only [hnode, Option.any_some, hd]
    rw [makeAllParts_cons, hsame, makeParts_of_leadsTo h]
    simp only [alreadyExists, reduceCtorEq, if_false, settle, hthere, if_true]

end There

namespace Closed
variable {s t : FileTree} {top : Nat} {origin : String} {names : List String}

/-- What is inside and no directory is new. -/
theorem size_le_of_not_isDirectory (h : Confined s top t) {i : Nat} (hi : s.IsInner top i)
    (hn : ¬t.isDirectory i = true) : s.nodes.size ≤ i := by
  refine hi.resolve_left ?_
  rintro rfl
  obtain ⟨parent, entries, -, hnow⟩ := h.base
  rw [isDirectory_eq, hnow] at hn
  exact hn rfl

/-- A path with plain names behind the top directory leads to a place inside. -/
theorem placeOf (h : Closed s top t) (ho : s.LeadsTo origin top) (hne : names ≠ [])
    (hup : ".." ∉ names) {follow : Bool} {place : Place}
    (hp : t.placeOf follow (Path.ofString origin).fromRoot ((Path.ofString origin).parts ++ names)
      = .ok place) : place.IsInner s top := by
  obtain ⟨first, hfirst, htop⟩ := h.confined.leadsTo ho
  rw [FileTree.placeOf] at hp hfirst
  obtain ⟨base, node, left, hbase, hnode, hrest⟩ := walks_append hne (walks_of_walk hp)
  -- The parts of the top directory lead there, and the names go on from it.
  obtain rfl : first = base := Except.ok.inj (hfirst.symm.trans hbase.walk)
  obtain rfl : top = node := Option.some.inj (htop.symm.trans hnode)
  exact h.confined.walks_inner h.links hrest (.inl rfl) (staysBelow_of_names hup)

theorem locate (h : Closed s top t) (ho : s.LeadsTo origin top) (hne : names ≠ [])
    (hn : ∀ n ∈ names, Path.Descends n) {follow keepSlash : Bool} {place : Place}
    (hl : t.locate follow (names.foldl Path.push origin) keepSlash = .ok place) :
    place.IsInner s top := by
  obtain ⟨hroot, hparts, hslash⟩ := Path.ofString_pushAll origin fun n hmem => (hn n hmem).isName
  rw [FileTree.locate] at hl
  split at hl
  · cases hl
  split at hl
  · cases hl
  simp only [hroot, hparts, hslash hne, Bool.and_false, Bool.false_eq_true, if_false,
    List.append_nil] at hl
  exact h.placeOf ho hne (not_mem_of_descends hn) hl

theorem find (h : Closed s top t) (ho : s.LeadsTo origin top) (hne : names ≠ [])
    (hn : ∀ n ∈ names, Path.Descends n) {follow : Bool} {node : Nat}
    (hf : t.find follow (names.foldl Path.push origin) = .ok node) : s.IsInner top node := by
  obtain ⟨place, hl, hnode⟩ := find_eq_ok.mp hf
  exact (h.locate ho hne hn hl).node hnode

section Make

theorem makeParts (h : Closed s top t) (ho : s.LeadsTo origin top) (hne : names ≠ [])
    (hup : ".." ∉ names) :
    Closed s top (t.makeParts (Path.ofString origin).fromRoot
      ((Path.ofString origin).parts ++ names)).1 := by
  unfold FileTree.makeParts
  rcases hp : t.placeOf false (Path.ofString origin).fromRoot
    ((Path.ofString origin).parts ++ names) with e | place
  · exact h
  have hinner := h.placeOf ho hne hup hp
  simp only
  unfold makeAt
  split
  · obtain ⟨parent, entries, hdir, -⟩ := walk_entry hp
    exact h.add hinner.1 hdir (.inr rfl) rfl
  · exact h

theorem makeAllParts (h : Closed s top t) (ho : s.LeadsTo origin top)
    (hn : ∀ n ∈ names, Path.Descends n) :
    Closed s top (t.makeAllParts (Path.ofString origin).fromRoot
      ((Path.ofString origin).parts ++ names).reverse).1 := by
  -- The directories behind the top one are made from the last one that is there.
  induction names using List.reverseRecOn generalizing t with
  | nil =>
    rw [List.append_nil]
    rcases hparts : (Path.ofString origin).parts.reverse with _ | ⟨part, above⟩
    · rw [FileTree.makeAllParts]
      exact h
    · have hsame : (part :: above).reverse = (Path.ofString origin).parts := by
        rw [← hparts, List.reverse_reverse]
      rw [makeAllParts_cons, hsame, makeParts_of_leadsTo (h.confined.leadsTo ho)]
      simp only [alreadyExists, reduceCtorEq, if_false, settle_fst]
      exact h
  | append_singleton names n ih =>
    have hplain : ∀ m ∈ names, Path.Descends m := fun m hm => hn m (List.mem_append_left _ hm)
    have hup := not_mem_of_descends hn
    have hne : names ++ [n] ≠ [] := List.append_ne_nil_of_right_ne_nil _ (List.cons_ne_nil _ _)
    have hparent : Path.parentParts (n :: ((Path.ofString origin).parts ++ names).reverse)
        = ((Path.ofString origin).parts ++ names).reverse := by
      have hdot : (n == ".") = false := beq_eq_false_iff_ne.mpr (hn n List.mem_concat_self).ne_dot
      rw [Path.parentParts, List.dropWhile_cons, hdot]
      rfl
    have hmade := h.makeParts ho hne hup
    rw [← List.append_assoc, List.reverse_append, List.reverse_singleton, List.singleton_append,
      makeAllParts_cons, hparent, List.reverse_cons, List.reverse_reverse, List.append_assoc]
    rcases hm : t.makeParts (Path.ofString origin).fromRoot
      ((Path.ofString origin).parts ++ (names ++ [n])) with ⟨u, e | ⟨⟨⟩⟩⟩
    · rw [hm] at hmade
      simp only
      split
      · have habove := ih hmade hplain
        rcases ha : u.makeAllParts (Path.ofString origin).fromRoot
          ((Path.ofString origin).parts ++ names).reverse with ⟨v, e | ⟨⟨⟩⟩⟩
        all_goals rw [ha] at habove
        · exact habove
        · rw [settle_fst]
          exact habove.makeParts ho hne hup
      · rw [settle_fst]
        exact hmade
    · rw [hm] at hmade
      exact hmade

theorem makeAll (h : Closed s top t) (ho : s.LeadsTo origin top)
    (hn : ∀ n ∈ names, Path.Descends n) :
    Closed s top (t.makeAll (names.foldl Path.push origin)).1 := by
  obtain ⟨hroot, hparts, -⟩ := Path.ofString_pushAll origin fun n hmem => (hn n hmem).isName
  unfold FileTree.makeAll
  simp only [hroot, hparts]
  split
  · exact h
  · exact h.makeAllParts ho hn

end Make

/-- The file that is opened is new. -/
theorem openEmpty (h : Closed s top t) (ho : s.LeadsTo origin top) (hne : names ≠ [])
    (hn : ∀ n ∈ names, Path.Descends n) :
    Closed s top (t.openEmpty (names.foldl Path.push origin)).1 ∧
      ∀ node, (t.openEmpty (names.foldl Path.push origin)).2 = .ok node → s.nodes.size ≤ node := by
  unfold FileTree.openEmpty
  rcases hl : t.locate true (names.foldl Path.push origin) false with e | _ | ⟨d, name, found⟩
  · exact ⟨h, by rintro node ⟨⟩⟩
  · exact ⟨h, by rintro node ⟨⟩⟩
  have hinner := h.locate ho hne hn hl
  simp only
  split
  · exact ⟨h, by rintro node ⟨⟩⟩
  rcases found with _ | i
  · obtain ⟨parent, entries, hdir, -⟩ := locate_entry hl
    refine ⟨h.add hinner.1 hdir (.inl rfl) rfl, ?_⟩
    rintro node ⟨⟩
    exact h.confined.grown
  · simp only
    split
    · exact ⟨h, by rintro node ⟨⟩⟩
    · refine ⟨h.modify (.inr (hinner.2 i rfl)) fun n => ?_, ?_⟩
      · cases n <;> exact ⟨rfl, rfl⟩
      · rintro node ⟨⟩
        exact hinner.2 i rfl

theorem remove (h : Closed s top t) (ho : s.LeadsTo origin top) (hne : names ≠ [])
    (hn : ∀ n ∈ names, Path.Descends n) :
    Closed s top (t.remove (names.foldl Path.push origin)).1 := by
  unfold FileTree.remove
  rcases hl : t.locate false (names.foldl Path.push origin) with e | _ | ⟨d, name, _ | i⟩
  · exact h
  · exact h
  · exact h
  have hinner := h.locate ho hne hn hl
  simp only
  split
  · exact h
  refine ⟨h.confined.modify hinner.1 (g := List.filter fun e => e.1 != name) ?_ ?_,
    h.links.modify (g := List.filter fun e => e.1 != name) ?_ ?_ ?_⟩
  · intro n
    cases n <;> rfl
  · intro es e he
    exact .inl (List.mem_filter.mp he).1
  · intro n
    cases n <;> rfl
  · intro n
    cases n <;> rfl
  · intro es e he
    exact .inl (List.mem_filter.mp he).1

theorem setMode (h : Closed s top t) (ho : s.LeadsTo origin top) (hne : names ≠ [])
    (hn : ∀ n ∈ names, Path.Descends n) (mode : Nat) :
    Closed s top (t.setMode (names.foldl Path.push origin) mode).1 := by
  unfold FileTree.setMode
  rcases hf : t.find true (names.foldl Path.push origin) with e | node
  · exact h
  · refine h.modify (h.find ho hne hn hf) fun n => ?_
    cases n <;> exact ⟨rfl, rfl⟩

theorem writeAt (h : Closed s top t) {file : Nat} (hf : s.nodes.size ≤ file) (position : Nat)
    (data : Bytes) : Closed s top (t.writeAt file position data).1 := by
  unfold FileTree.writeAt
  split
  · exact h
  split
  · exact h
  refine h.modify (.inr hf) fun n => ?_
  cases n <;> exact ⟨rfl, rfl⟩

theorem extendTo (h : Closed s top t) {file : Nat} (hf : s.nodes.size ≤ file) (length : Nat) :
    Closed s top (t.extendTo file length).1 := by
  unfold FileTree.extendTo
  split
  · exact h
  split
  · exact h
  split
  · exact h
  refine h.modify (.inr hf) fun n => ?_
  cases n <;> exact ⟨rfl, rfl⟩

/-- A link is made inside, wherever it leads. -/
theorem makeLink (h : Closed s top t) (ho : s.LeadsTo origin top) (hne : names ≠ [])
    (hn : ∀ n ∈ names, Path.Descends n) (target : String) :
    Confined s top (t.makeLink target (names.foldl Path.push origin)).1 := by
  unfold FileTree.makeLink
  split
  · exact h.confined
  split
  · exact h.confined
  rcases hl : t.locate false (names.foldl Path.push origin) with e | _ | ⟨d, name, _ | i⟩
  · exact h.confined
  · exact h.confined
  · obtain ⟨parent, entries, hdir, -⟩ := locate_entry hl
    exact h.confined.add (h.locate ho hne hn hl).1 hdir (.inl rfl)
  · exact h.confined

/-- What gets one more name is new. -/
theorem makeName (h : Closed s top t) (ho : s.LeadsTo origin top) {others : List String}
    (hne : names ≠ []) (hn : ∀ n ∈ names, Path.Descends n) (hone : others ≠ [])
    (hothers : ∀ n ∈ others, Path.Descends n) :
    Confined s top
      (t.makeName (others.foldl Path.push origin) (names.foldl Path.push origin)).1 := by
  unfold FileTree.makeName
  rcases hf : t.find false (others.foldl Path.push origin) with e | node
  · exact h.confined
  rcases hl : t.locate false (names.foldl Path.push origin) with e | _ | ⟨d, name, _ | i⟩
  · exact h.confined
  · exact h.confined
  · simp only
    split
    · exact h.confined
    · next hplain =>
      exact h.confined.enter (h.locate ho hne hn hl).1
        (size_le_of_not_isDirectory h.confined (h.find ho hone hothers hf) hplain)
  · exact h.confined

end Closed
end BackupVolume.FileTree
