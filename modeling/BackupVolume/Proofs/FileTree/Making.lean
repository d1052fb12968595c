import BackupVolume.Proofs.FileTree.Outline

/-! # Making directories and files

A tree grows when directories are made, and when a file is opened to be filled: the file is empty
then, and is found under the path that it was opened with.
-/
namespace BackupVolume.FileTree

theorem directory?_push {t : FileTree} {d : Nat} {p : Nat × List (String × Nat)}
    (hd : t.directory? d = some p) (n : Node) :
    ({ t with nodes := t.nodes.push n } : FileTree).directory? d = some p := by
  have hlt : d ≠ t.nodes.size := by
    rintro rfl
    simp [directory?] at hd
  simp only [directory?, Array.getElem?_push, if_neg hlt]
  exact hd

theorem grows_push (file : Nat) (t : FileTree) {n : Node} (hn : n.target? = none) :
    Grows file t { t with nodes := t.nodes.push n } where
  working := rfl
  target i := by
    simp only [target?, Array.getElem?_push]
    by_cases hi : i = t.nodes.size
    · rw [if_pos hi, hi, Option.bind_some, hn]
      simp
    · rw [if_neg hi]
  directory hd := ⟨_, directory?_push hd n, fun _ _ h => h⟩
  content {i content} _ hc := by
    rw [content?_eq] at hc ⊢
    have hlt : i ≠ t.nodes.size := by
      rintro rfl
      simp at hc
    simp only [Array.getElem?_push, if_neg hlt]
    exact hc

theorem getElem?_enter (t : FileTree) (d : Nat) (name : String) (node i : Nat) :
    (t.enter d name node).nodes[i]? = if d = i then t.nodes[i]?.map fun
        | .directory mode parent entries => .directory mode parent ((name, node) :: entries)
        | n => n
      else t.nodes[i]? := by
  unfold enter
  exact Array.getElem?_modify

/-- A name that was free gets a meaning. -/
theorem grows_enter (file : Nat) {t : FileTree} {d parent : Nat} {entries : List (String × Nat)}
    {name : String} (hd : t.directory? d = some (parent, entries))
    (hfree : entries.lookup name = none) (node : Nat) :
    Grows file t (t.enter d name node) ∧
      (t.enter d name node).directory? d = some (parent, (name, node) :: entries) := by
  have hentered : (t.enter d name node).directory? d = some (parent, (name, node) :: entries) := by
    rw [directory?] at hd ⊢
    rw [getElem?_enter, if_pos rfl]
    rcases hn : t.nodes[d]? with _ | _ | _ | _ <;> simp_all [Node.directory?]
  refine ⟨⟨rfl, ?_, ?_, ?_⟩, hentered⟩
  · intro i
    rw [target?, getElem?_enter, target?]
    split
    · rcases t.nodes[i]? with _ | _ | _ | _ <;> rfl
    · rfl
  · intro x above names hx
    by_cases hsame : d = x
    · subst hsame
      obtain ⟨rfl, rfl⟩ := Prod.mk.inj (Option.some.inj (hd.symm.trans hx))
      refine ⟨_, hentered, ?_⟩
      intro other k hk
      have hother : (other == name) = false := by
        refine beq_eq_false_iff_ne.mpr ?_
        rintro rfl
        rw [hfree] at hk
        cases hk
      simpa [List.lookup_cons, hother] using hk
    · refine ⟨names, ?_, fun _ _ h => h⟩
      rw [directory?, getElem?_enter, if_neg hsame]
      exact hx
  · intro i content _ hc
    rw [content?_eq] at hc ⊢
    rw [getElem?_enter]
    split
    · rcases hn : t.nodes[i]? with _ | _ | _ | _ <;> simp_all [Node.content?]
    · exact hc

theorem grows_add (file : Nat) {t : FileTree} {d parent : Nat} {entries : List (String × Nat)}
    {name : String} {n : Node} (hd : t.directory? d = some (parent, entries))
    (hfree : entries.lookup name = none) (hn : n.target? = none) :
    Grows file t (t.add d name n).1 ∧
      (t.add d name n).1.directory? d = some (parent, (name, t.nodes.size) :: entries) := by
  obtain ⟨hgrows, hentered⟩ :=
    grows_enter file (directory?_push hd n) hfree t.nodes.size
  exact ⟨(grows_push file t hn).trans hgrows, hentered⟩

theorem content?_add (t : FileTree) (d : Nat) (name : String) (mode : Nat)
    (content : Array UInt8) :
    (t.add d name (.file mode content)).1.content? t.nodes.size = some content := by
  rw [content?_eq]
  simp only [add, getElem?_enter, Array.getElem?_push_size]
  split <;> rfl

section Directories
variable {t : FileTree} (file : Nat) (fromRoot : Bool)

theorem grows_makeAt {place : Place} (hp : ∀ d name, place = .entry d name none →
      ∃ parent entries, t.directory? d = some (parent, entries) ∧ entries.lookup name = none) :
    Grows file t (t.makeAt place).1 := by
  unfold makeAt
  split
  · obtain ⟨parent, entries, hd, hfree⟩ := hp _ _ rfl
    exact (grows_add file hd hfree rfl).1
  · exact .refl file t

theorem grows_makeParts (parts : List String) : Grows file t (t.makeParts fromRoot parts).1 := by
  unfold makeParts
  rcases hw : t.placeOf false fromRoot parts with e | place
  · exact .refl file t
  · refine grows_makeAt file fun d name hp => ?_
    subst hp
    exact walk_entry hw

theorem settle_fst (parts : List String) (r : FileTree × Except IoFault Unit) :
    (settle fromRoot parts r).1 = r.1 := by
  obtain ⟨t, e | ⟨⟨⟩⟩⟩ := r
  · rw [settle]
    split <;> rfl
  · rfl

theorem grows_makeAllParts (reversed : List String) :
    Grows file t (t.makeAllParts fromRoot reversed).1 := by
  induction hn : reversed.length using Nat.strongRecOn generalizing t reversed with
  | _ n ih =>
    cases reversed with
    | nil =>
      rw [makeAllParts]
      exact .refl file t
    | cons part above =>
      have habove (t : FileTree) := ih _ (hn ▸ Path.length_parentParts_lt) (t := t)
        (Path.parentParts (part :: above)) rfl
      have hmade := grows_makeParts (t := t) file fromRoot (part :: above).reverse
      rw [makeAllParts_cons]
      rcases hm : t.makeParts fromRoot (part :: above).reverse with ⟨u, e | ⟨⟨⟩⟩⟩
      · rw [hm] at hmade
        simp only
        split
        · have hparent := hmade.trans (habove u)
          rcases ha : u.makeAllParts fromRoot (Path.parentParts (part :: above)) with ⟨v, e | ⟨⟨⟩⟩⟩
          all_goals rw [ha] at hparent
          · exact hparent
          · simp only [settle_fst]
            exact hparent.trans (grows_makeParts file fromRoot _)
        · rw [settle_fst]
          exact hmade
      · rw [hm] at hmade
        exact hmade

theorem grows_makeAll (path : String) : Grows file t (t.makeAll path).1 := by
  unfold makeAll
  simp only
  split
  · exact .refl file t
  · exact grows_makeAllParts file _ _

end Directories

/-- A change of modes and contents moves nothing. -/
theorem grows_modify (t : FileTree) (node : Nat) {f : Node → Node}
    (hd : ∀ n, (f n).directory? = n.directory?) (ht : ∀ n, (f n).target? = n.target?) :
    Grows node t { t with nodes := t.nodes.modify node f } where
  working := rfl
  target i := by
    simp only [target?, Array.getElem?_modify]
    split
    · simp only [Option.bind_map, Function.comp_def, ht]
    · rfl
  directory {d parent entries} h := by
    refine ⟨entries, ?_, fun _ _ h => h⟩
    simp only [directory?, Array.getElem?_modify] at h ⊢
    split
    · simpa only [Option.bind_map, Function.comp_def, hd] using h
    · exact h
  content {i content} hi hc := by
    rw [content?_eq] at hc ⊢
    simp only [Array.getElem?_modify, if_neg (Ne.symm hi)]
    exact hc

/-- A file that was opened is empty, it is found where it was opened, and nothing else has
changed. -/
structure Opened (t u : FileTree) (path : String) (node : Nat) : Prop where
  grows : Grows node t u
  empty : u.content? node = some #[]
  found : u.find true path = .ok node

section Open
variable {t : FileTree} {path : String} {d : Nat} {name : String}

/-- A path without a slash at its end leads to what has its name. -/
theorem find_of_locate (hs : ¬(Path.ofString path).isDirectory = true) {node : Nat}
    (h : t.locate true path false = .ok (.entry d name (some node))) :
    t.find true path = .ok node := by
  have hkeep : t.locate true path = t.locate true path false := by
    simp only [locate, hs, Bool.and_false, Bool.false_eq_true, if_false]
  exact find_eq_ok.mpr ⟨_, hkeep.trans h, rfl⟩

theorem opened_add (hs : ¬(Path.ofString path).isDirectory = true)
    (hl : t.locate true path false = .ok (.entry d name none)) :
    Opened t (t.add d name (.file newFileMode #[])).1 path t.nodes.size := by
  obtain ⟨parent, entries, hd, hfree⟩ := locate_entry hl
  obtain ⟨hgrows, hentered⟩ := grows_add t.nodes.size hd hfree
    (n := .file newFileMode #[]) rfl
  have hempty := content?_add t d name newFileMode #[]
  have hnow : Grows.now (t.add d name (.file newFileMode #[])).1 (.entry d name none)
      = .entry d name (some t.nodes.size) := by
    simp [Grows.now, hentered]
  have hplace := hgrows.locate hl fun x y k hp hk => by
    rw [hnow] at hk
    cases hk
    exact target?_of_content? hempty
  rw [hnow] at hplace
  exact ⟨hgrows, hempty, find_of_locate hs hplace⟩

theorem opened_modify (hs : ¬(Path.ofString path).isDirectory = true) {node : Nat}
    (hl : t.locate true path false = .ok (.entry d name (some node))) {f : Node → Node}
    (hd : ∀ n, (f n).directory? = n.directory?) (ht : ∀ n, (f n).target? = n.target?)
    (hc : ∀ n, (f n).content? = n.content?.map fun _ => #[]) {content : Array UInt8}
    (hfile : content? { t with nodes := t.nodes.modify node f } node = some content) :
    Opened t { t with nodes := t.nodes.modify node f } path node := by
  have hgrows := grows_modify t node hd ht
  refine ⟨hgrows, ?_, find_of_locate hs (hgrows.locate hl fun x y n hp _ => by cases hp)⟩
  rw [content?_eq] at hfile ⊢
  simp only [Array.getElem?_modify, if_true] at hfile ⊢
  rcases hn : t.nodes[node]? with _ | n
  · simp [hn] at hfile
  · simp only [hn, Option.map_some, Option.bind_some, hc] at hfile ⊢
    rcases hcontent : n.content? with _ | old
    · simp [hcontent] at hfile
    · rfl

theorem opened_openEmpty {u : FileTree} {node : Nat} (h : t.openEmpty path = (u, .ok node))
    {content : Array UInt8} (hfile : u.content? node = some content) : Opened t u path node := by
  unfold openEmpty at h
  rcases hl : t.locate true path false with e | _ | ⟨d, name, found⟩
  · simp [hl] at h
  · simp [hl] at h
  simp only [hl] at h
  by_cases hslash : (Path.ofString path).isDirectory = true
  · simp [hslash] at h
  rw [if_neg hslash] at h
  rcases found with _ | k
  · obtain ⟨rfl, hnode⟩ := Prod.mk.inj h
    obtain rfl := Except.ok.inj hnode
    exact opened_add hslash hl
  · simp only at h
    split at h
    · cases h
    obtain ⟨rfl, hnode⟩ := Prod.mk.inj h
    obtain rfl := Except.ok.inj hnode
    refine opened_modify hslash hl ?_ ?_ ?_ hfile
    · intro n
      cases n <;> rfl
    · intro n
      cases n <;> rfl
    · intro n
      cases n <;> rfl

end Open

end BackupVolume.FileTree
