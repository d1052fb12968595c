import BackupVolume.Proofs.FileTree.Making
import BackupVolume.Proofs.FileTree.Naming

/-! # Changes that stay below a directory

A path without two dots stays below a directory once it has got there, as long as every link that it
meets is relative and climbs no higher than that directory. Files and directories made, removed or
changed through such paths leave the rest of the tree as it was.
-/
namespace BackupVolume.FileTree

def parent? (t : FileTree) (d : Nat) : Option Nat := (t.directory? d).map Prod.fst

/-- How many directories a directory lies below the top one. Directories have greater numbers than
those that they are made in. -/
def depth (t : FileTree) (top d : Nat) : Nat :=
  if d = top then 0
  else
    match t.parent? d with
    | none => 0
    | some parent => if parent < d then t.depth top parent + 1 else 0
termination_by d

/-- The parts climb at their start only, and over no more than so many directories. -/
def staysBelow : (level : Nat) → List String → Bool
  | _, [] => true
  | level, part :: parts =>
    if part = "." then staysBelow level parts
    else if part = ".." then 0 < level && staysBelow (level - 1) parts
    else !parts.contains ".."

theorem staysBelow_of_names {level : Nat} {parts : List String} (h : ".." ∉ parts) :
    staysBelow level parts = true := by
  induction parts with
  | nil => rfl
  | cons part parts ih =>
    have hrest : ".." ∉ parts := fun hmem => h (List.mem_cons_of_mem part hmem)
    have hpart : ¬part = ".." := fun heq => h (heq ▸ List.mem_cons_self)
    rw [staysBelow, if_neg hpart]
    split
    · exact ih hrest
    · simpa using hrest

theorem staysBelow_append {level : Nat} {xs ys : List String} (hx : staysBelow level xs = true)
    (hy : ".." ∉ ys) : staysBelow level (xs ++ ys) = true := by
  induction xs generalizing level with
  | nil => exact staysBelow_of_names hy
  | cons x xs ih =>
    rw [List.cons_append, staysBelow]
    rw [staysBelow] at hx
    split at hx
    · next hdot =>
      rw [if_pos hdot]
      exact ih hx
    · next hdot =>
      rw [if_neg hdot]
      split at hx
      · next hup =>
        rw [if_pos hup]
        rw [Bool.and_eq_true] at hx ⊢
        exact ⟨hx.1, ih hx.2⟩
      · next hup =>
        rw [if_neg hup]
        simpa [hy] using hx

section Depth
variable {t u : FileTree} {top d : Nat}

@[simp] theorem depth_top (t : FileTree) (top : Nat) : t.depth top top = 0 := by
  rw [depth, if_pos rfl]

theorem depth_of_parent {parent : Nat} (hne : d ≠ top) (hp : t.parent? d = some parent)
    (hlt : parent < d) : t.depth top d = t.depth top parent + 1 := by
  rw [depth, if_neg hne, hp]
  exact if_pos hlt

theorem depth_congr (h : ∀ i ≤ d, u.parent? i = t.parent? i) : u.depth top d = t.depth top d := by
  induction d using Nat.strongRecOn with
  | _ d ih =>
    rw [depth, depth, h d (Nat.le_refl d)]
    rcases t.parent? d with _ | parent
    · rfl
    · by_cases hlt : parent < d
      · have hparent := ih parent hlt fun i hi => h i (by omega)
        simp only [hparent]
      · simp only [if_neg hlt]

end Depth

/-- A node that counts as inside: the top directory, or one that has been made since the tree
was `s`. -/
def IsInner (s : FileTree) (top i : Nat) : Prop := i = top ∨ s.nodes.size ≤ i

def Place.IsInner (s : FileTree) (top : Nat) : Place → Prop
  | .unnamed d => s.IsInner top d
  | .entry d _ node => s.IsInner top d ∧ ∀ i, node = some i → s.nodes.size ≤ i

/-- The tree `s` has become `t` by changes below an empty directory: all other nodes are as they
were, names below the directory belong to nodes that are new, and new directories lie below it. -/
structure Confined (s : FileTree) (top : Nat) (t : FileTree) : Prop where
  working : t.working = s.working
  outer {i : Nat} : ¬s.IsInner top i → t.nodes[i]? = s.nodes[i]?
  base : ∃ parent entries, s.directory? top = some (parent, []) ∧
    t.directory? top = some (parent, entries)
  names {d parent : Nat} {entries : List (String × Nat)} : s.IsInner top d →
    t.directory? d = some (parent, entries) → ∀ e ∈ entries, s.nodes.size ≤ e.2
  above {d parent : Nat} {entries : List (String × Nat)} : s.nodes.size ≤ d →
    t.directory? d = some (parent, entries) → s.IsInner top parent ∧ parent < d
  grown : s.nodes.size ≤ t.nodes.size

/-- Every link inside is relative, and climbs no higher than the top directory. Its text tells, and
not what it leads to: a link that leads nowhere may lead out when a directory has been made. -/
def LinksStay (s : FileTree) (top : Nat) (t : FileTree) : Prop :=
  ∀ d parent entries, s.IsInner top d → t.directory? d = some (parent, entries) →
    ∀ e ∈ entries, ∀ target, t.target? e.2 = some target →
      (Path.ofString target).fromRoot = false ∧
        staysBelow (t.depth top d) (Path.ofString target).parts = true

theorem target?_of_directory? {t : FileTree} {d : Nat} {p : Nat × List (String × Nat)}
    (h : t.directory? d = some p) : t.target? d = none := by
  rw [directory?] at h
  rw [target?]
  rcases hn : t.nodes[d]? with _ | _ | _ | _ <;> simp_all [Node.directory?, Node.target?]

theorem lt_of_directory? {t : FileTree} {d : Nat} {p : Nat × List (String × Nat)}
    (h : t.directory? d = some p) : d < t.nodes.size := by
  rcases Nat.lt_or_ge d t.nodes.size with hlt | hge
  · exact hlt
  · rw [directory?, Array.getElem?_eq_none hge] at h
    cases h

theorem mem_of_lookup {entries : List (String × Nat)} {name : String} {node : Nat}
    (h : entries.lookup name = some node) : (name, node) ∈ entries := by
  obtain ⟨before, after, rfl, -⟩ := List.lookup_eq_some_iff.mp h
  exact List.mem_append_right before List.mem_cons_self

/-- A path that goes on leads through what its first parts lead to. -/
theorem walks_append {t : FileTree} {follow : Bool} {rest : List String} (hr : rest ≠ [])
    {budget directory : Nat} {parts : List String} {place : Place}
    (h : Walks t follow budget directory (parts ++ rest) place) :
    ∃ first node left, Walks t true budget directory parts first ∧ first.node? = some node ∧
      Walks t follow left node rest place := by
  induction budget, directory, parts using walk_induction with
  | nil budget directory => exact ⟨_, directory, budget, .nil budget directory, rfl, h⟩
  | cons budget directory name parts ih above =>
    rw [List.cons_append] at h
    obtain ⟨tail, htail⟩ : ∃ tail, parts ++ rest = tail := ⟨_, rfl⟩
    have hmore : tail ≠ [] := htail ▸ List.append_ne_nil_of_right_ne_nil parts hr
    rw [htail] at h
    cases h with
    | dot hd walks =>
      obtain ⟨first, node, left, hfirst, hrest⟩ := ih _ (htail ▸ walks)
      exact ⟨first, node, left, .dot hd hfirst, hrest⟩
    | up hd walks =>
      obtain ⟨first, node, left, hfirst, hrest⟩ := ih _ (htail ▸ walks)
      exact ⟨first, node, left, .up hd hfirst, hrest⟩
    | free => exact absurd rfl hmore
    | last => exact absurd rfl hmore
    | @into _ _ _ _ _ node _ _ hd hn hl ht _ walks =>
      by_cases hlast : parts = []
      · rw [hlast, List.nil_append] at htail
        rw [hlast]
        exact ⟨_, node, budget, .last hd hn hl (.inl ht), rfl, htail ▸ walks⟩
      · obtain ⟨first, node, left, hfirst, hrest⟩ := ih _ (htail ▸ walks)
        exact ⟨first, node, left, .into hd hn hl ht hlast hfirst, hrest⟩
    | @link less _ _ _ _ _ _ _ _ hd hn hl ht _ walks =>
      rw [← htail, ← List.append_assoc _ parts rest, ← List.append_assoc] at walks
      obtain ⟨first, node, left, hfirst, hrest⟩ := above less (Nat.lt_succ_self less) _ _ walks
      exact ⟨first, node, left, .link hd hn hl ht (.inr rfl) hfirst, hrest⟩

/-- From inside, a path that stays below the top directory leads to a place inside. -/
theorem Confined.walks_inner {s t : FileTree} {top : Nat} (h : Confined s top t)
    (hl : LinksStay s top t) {follow : Bool} {budget directory : Nat} {parts : List String}
    {place : Place} (hw : Walks t follow budget directory parts place)
    (hd : s.IsInner top directory) (hp : staysBelow (t.depth top directory) parts = true) :
    place.IsInner s top := by
  induction hw with
  | nil => exact hd
  | dot _ _ ih =>
    rw [staysBelow, if_pos rfl] at hp
    exact ih hd hp
  | @up _ directory parent _ _ _ hdir _ ih =>
    rw [staysBelow, if_neg (by decide), if_pos rfl, Bool.and_eq_true, decide_eq_true_eq] at hp
    -- Only below the top directory there is room to climb.
    have hne : directory ≠ top := by
      rintro rfl
      rw [depth_top] at hp
      exact absurd hp.1 (Nat.lt_irrefl 0)
    obtain ⟨hparent, hlt⟩ := h.above (hd.resolve_left hne) hdir
    have hdepth : t.depth top directory = t.depth top parent + 1 :=
      depth_of_parent hne (by rw [parent?, hdir]; rfl) hlt
    rw [hdepth, Nat.add_sub_cancel] at hp
    exact ih hparent hp.2
  | free => exact ⟨hd, by rintro i ⟨⟩⟩
  | last hdir _ hlookup _ =>
    exact ⟨hd, by rintro i ⟨rfl⟩; exact h.names hd hdir _ (mem_of_lookup hlookup)⟩
  | into hdir hn hlookup _ _ _ ih =>
    rw [staysBelow, if_neg hn.ne_dot, if_neg hn.ne_up] at hp
    exact ih (.inr (h.names hd hdir _ (mem_of_lookup hlookup)))
      (staysBelow_of_names (by simpa using hp))
  | @link _ directory parent entries _ target _ _ _ hdir hn hlookup ht _ _ ih =>
    rw [staysBelow, if_neg hn.ne_dot, if_neg hn.ne_up] at hp
    obtain ⟨hrelative, hstays⟩ :=
      hl directory parent entries hd hdir _ (mem_of_lookup hlookup) target ht
    simp only [hrelative, Bool.false_eq_true, if_false] at ih
    refine ih hd (staysBelow_append hstays fun hmem => ?_)
    rcases List.mem_append.mp hmem with hmem | hmem
    · split at hmem <;> simp at hmem
    · simp [hmem] at hp

/-- A path leads to a directory, wherever a slash at its end. -/
def LeadsTo (t : FileTree) (path : String) (d : Nat) : Prop :=
  ∃ place, t.placeOf true (Path.ofString path).fromRoot (Path.ofString path).parts = .ok place ∧
    place.node? = some d

theorem Walks.exists_directory {t : FileTree} {follow : Bool} {budget d : Nat}
    {parts : List String} {place : Place} (h : Walks t follow budget d parts place)
    (hp : parts ≠ []) : ∃ p, t.directory? d = some p := by
  cases h with
  | nil => exact absurd rfl hp
  | dot hd => exact ⟨_, hd⟩
  | up hd => exact ⟨_, hd⟩
  | free hd => exact ⟨_, hd⟩
  | last hd => exact ⟨_, hd⟩
  | into hd => exact ⟨_, hd⟩
  | link hd => exact ⟨_, hd⟩

namespace Confined
variable {s t : FileTree} {top : Nat}

theorem directory?_outer (h : Confined s top t) {d : Nat} (hd : ¬s.IsInner top d) :
    t.directory? d = s.directory? d := by
  rw [directory?, directory?, h.outer hd]

theorem target?_outer (h : Confined s top t) {d : Nat} {target : String}
    (hd : s.target? d = some target) : t.target? d = some target := by
  have houter : ¬s.IsInner top d := by
    rintro (rfl | hge)
    · obtain ⟨parent, entries, hbase, -⟩ := h.base
      rw [target?_of_directory? hbase] at hd
      cases hd
    · rw [target?, Array.getElem?_eq_none hge] at hd
      cases hd
  rw [← hd, target?, target?, h.outer houter]

/-- The directories of the old tree are still there, with the same parent, and with the same names
unless it is the top one, which was empty. -/
theorem directory?_old (h : Confined s top t) {d parent : Nat} {entries : List (String × Nat)}
    (hd : s.directory? d = some (parent, entries)) :
    ∃ more, t.directory? d = some (parent, more) ∧ (entries = [] ∨ more = entries) := by
  obtain ⟨parent₀, entries₀, hbase, hnow⟩ := h.base
  by_cases hne : d = top
  · subst hne
    rw [hbase] at hd
    cases hd
    exact ⟨entries₀, hnow, .inl rfl⟩
  · have houter : ¬s.IsInner top d := by
      rintro (htop | hge)
      · exact hne htop
      · exact absurd (lt_of_directory? hd) (Nat.not_lt.mpr hge)
    exact ⟨entries, (h.directory?_outer houter).trans hd, .inr rfl⟩

theorem lookup_old (h : Confined s top t) {d parent node : Nat} {entries : List (String × Nat)}
    {name : String} (hd : s.directory? d = some (parent, entries))
    (hl : entries.lookup name = some node) :
    ∃ more, t.directory? d = some (parent, more) ∧ more.lookup name = some node := by
  obtain ⟨more, hmore, rfl | rfl⟩ := h.directory?_old hd
  · cases hl
  · exact ⟨more, hmore, hl⟩

/-- A path that leads to the top directory is not touched by what happens inside. -/
theorem walks_base (h : Confined s top t) {budget directory : Nat} {parts : List String}
    {place : Place} (hw : Walks s true budget directory parts place)
    (hp : place.node? = some top) : Walks t true budget directory parts place := by
  induction hw with
  | nil budget directory => exact .nil budget directory
  | dot hd _ ih =>
    obtain ⟨more, hmore, -⟩ := h.directory?_old hd
    exact .dot hmore (ih hp)
  | up hd _ ih =>
    obtain ⟨more, hmore, -⟩ := h.directory?_old hd
    exact .up hmore (ih hp)
  | free => cases hp
  | last hd hn hl _ =>
    cases hp
    obtain ⟨more, hmore, hlookup⟩ := h.lookup_old hd hl
    obtain ⟨_, _, -, hnow⟩ := h.base
    exact .last hmore hn hlookup (.inl (target?_of_directory? hnow))
  | into hd hn hl _ hr _ ih =>
    obtain ⟨more, hmore, hlookup⟩ := h.lookup_old hd hl
    obtain ⟨p, hnode⟩ := (ih hp).exists_directory hr
    exact .into hmore hn hlookup (target?_of_directory? hnode) hr (ih hp)
  | link hd hn hl ht hr _ ih =>
    obtain ⟨more, hmore, hlookup⟩ := h.lookup_old hd hl
    exact .link hmore hn hlookup (h.target?_outer ht) hr (ih hp)

end Confined

/-- A path that is followed to its end leads to something that is there as well when a link at its
end is not followed. -/
theorem Walks.unfollowed {t : FileTree} {budget directory node : Nat} {parts : List String}
    {place : Place} (h : Walks t true budget directory parts place)
    (hp : place.node? = some node) :
    ∃ other i, Walks t false budget directory parts other ∧ other.node? = some i := by
  induction h with
  | nil budget directory => exact ⟨_, directory, .nil budget directory, rfl⟩
  | dot hd _ ih =>
    obtain ⟨other, i, hother, hi⟩ := ih hp
    exact ⟨other, i, .dot hd hother, hi⟩
  | up hd _ ih =>
    obtain ⟨other, i, hother, hi⟩ := ih hp
    exact ⟨other, i, .up hd hother, hi⟩
  | free => cases hp
  | @last _ _ _ _ _ k hd hn hl _ => exact ⟨_, k, .last hd hn hl (.inr rfl), rfl⟩
  | into hd hn hl ht hr _ ih =>
    obtain ⟨other, i, hother, hi⟩ := ih hp
    exact ⟨other, i, .into hd hn hl ht hr hother, hi⟩
  | @link _ _ _ _ _ _ k rest _ hd hn hl ht _ _ ih =>
    by_cases hlast : rest = []
    · subst hlast
      exact ⟨_, k, .last hd hn hl (.inr rfl), rfl⟩
    · obtain ⟨other, i, hother, hi⟩ := ih hp
      exact ⟨other, i, .link hd hn hl ht (.inl hlast) hother, hi⟩

section Modify
variable {t : FileTree} {f : Node → Node} {g : List (String × Nat) → List (String × Nat)}

theorem directory?_modify (hd : ∀ n, (f n).directory? = n.directory?.map (Prod.map id g))
    (t : FileTree) (i j : Nat) :
    ({ t with nodes := t.nodes.modify i f } : FileTree).directory? j
      = if i = j then (t.directory? j).map (Prod.map id g) else t.directory? j := by
  simp only [directory?, Array.getElem?_modify]
  split
  · rcases t.nodes[j]? with _ | n
    · rfl
    · exact hd n
  · rfl

theorem target?_modify (ht : ∀ n, (f n).target? = n.target?) (t : FileTree) (i j : Nat) :
    ({ t with nodes := t.nodes.modify i f } : FileTree).target? j = t.target? j := by
  simp only [target?, Array.getElem?_modify]
  split
  · simp only [Option.bind_map, Function.comp_def, ht]
  · rfl

theorem parent?_modify (hd : ∀ n, (f n).directory? = n.directory?.map (Prod.map id g))
    (t : FileTree) (i j : Nat) :
    ({ t with nodes := t.nodes.modify i f } : FileTree).parent? j = t.parent? j := by
  rw [parent?, parent?, directory?_modify hd]
  split
  · rw [Option.map_map]
    rfl
  · rfl

end Modify

theorem directory?_push_of_some {t : FileTree} {n : Node} {d : Nat}
    {p : Nat × List (String × Nat)}
    (h : ({ t with nodes := t.nodes.push n } : FileTree).directory? d = some p) :
    t.directory? d = some p ∨ d = t.nodes.size ∧ n.directory? = some p := by
  simp only [directory?, Array.getElem?_push] at h
  split at h
  · next hsize => exact .inr ⟨hsize, h⟩
  · exact .inl h

theorem target?_push_of_some {t : FileTree} {n : Node} (hn : n.target? = none) {i : Nat}
    {target : String}
    (h : ({ t with nodes := t.nodes.push n } : FileTree).target? i = some target) :
    t.target? i = some target := by
  simp only [target?, Array.getElem?_push] at h
  split at h
  · rw [Option.bind_some, hn] at h
    cases h
  · exact h

theorem parent?_push_of_lt {t : FileTree} (n : Node) {i : Nat} (hi : i < t.nodes.size) :
    ({ t with nodes := t.nodes.push n } : FileTree).parent? i = t.parent? i := by
  simp only [parent?, directory?, Array.getElem?_push, if_neg (Nat.ne_of_lt hi)]

namespace Confined
variable {s t : FileTree} {top : Nat}

/-- A node inside may be changed, as long as its names belong to new nodes. -/
theorem modify (h : Confined s top t) {i : Nat} (hi : s.IsInner top i) {f : Node → Node}
    {g : List (String × Nat) → List (String × Nat)}
    (hd : ∀ n, (f n).directory? = n.directory?.map (Prod.map id g))
    (hg : ∀ es, ∀ e ∈ g es, e ∈ es ∨ s.nodes.size ≤ e.2) :
    Confined s top { t with nodes := t.nodes.modify i f } := by
  refine ⟨h.working, ?_, ?_, ?_, ?_, ?_⟩
  · intro j hj
    have hne : i ≠ j := fun heq => hj (heq ▸ hi)
    rw [← h.outer hj, Array.getElem?_modify, if_neg hne]
  · obtain ⟨parent, entries, hbase, hnow⟩ := h.base
    rw [directory?_modify hd, hnow]
    split
    · exact ⟨parent, g entries, hbase, rfl⟩
    · exact ⟨parent, entries, hbase, rfl⟩
  · intro d parent entries hinner hdir e he
    rw [directory?_modify hd] at hdir
    split at hdir
    · obtain ⟨⟨_, es⟩, hold, hpair⟩ := Option.map_eq_some_iff.mp hdir
      cases hpair
      rcases hg es e he with hold' | hnew
      · exact h.names hinner hold e hold'
      · exact hnew
    · exact h.names hinner hdir e he
  · intro d parent entries hge hdir
    rw [directory?_modify hd] at hdir
    split at hdir
    · obtain ⟨⟨_, es⟩, hold, hpair⟩ := Option.map_eq_some_iff.mp hdir
      cases hpair
      exact h.above hge hold
    · exact h.above hge hdir
  · simp only [Array.size_modify]
    exact h.grown

/-- A new node may be added that is no directory, or an empty one inside. -/
theorem push (h : Confined s top t) {n : Node}
    (hn : ∀ parent entries, n.directory? = some (parent, entries) →
      s.IsInner top parent ∧ parent < t.nodes.size ∧ entries = []) :
    Confined s top { t with nodes := t.nodes.push n } := by
  refine ⟨h.working, ?_, ?_, ?_, ?_, ?_⟩
  · intro j hj
    have hne : j ≠ t.nodes.size := fun heq => hj (heq ▸ .inr h.grown)
    rw [← h.outer hj, Array.getElem?_push, if_neg hne]
  · obtain ⟨parent, entries, hbase, hnow⟩ := h.base
    exact ⟨parent, entries, hbase, directory?_push hnow n⟩
  · intro d parent entries hinner hdir e he
    rcases directory?_push_of_some hdir with hold | ⟨-, hnew⟩
    · exact h.names hinner hold e he
    · obtain ⟨-, -, rfl⟩ := hn _ _ hnew
      cases he
  · intro d parent entries hge hdir
    rcases directory?_push_of_some hdir with hold | ⟨rfl, hnew⟩
    · exact h.above hge hold
    · obtain ⟨hparent, hlt, -⟩ := hn _ _ hnew
      exact ⟨hparent, hlt⟩
  · rw [Array.size_push]
    exact Nat.le_succ_of_le h.grown

end Confined

namespace LinksStay
variable {s t : FileTree} {top : Nat}

/-- Names may be taken away, and given to nodes that are no links. -/
theorem modify (h : LinksStay s top t) {i : Nat} {f : Node → Node}
    {g : List (String × Nat) → List (String × Nat)}
    (hd : ∀ n, (f n).directory? = n.directory?.map (Prod.map id g))
    (ht : ∀ n, (f n).target? = n.target?)
    (hg : ∀ es, ∀ e ∈ g es, e ∈ es ∨ t.target? e.2 = none) :
    LinksStay s top { t with nodes := t.nodes.modify i f } := by
  intro d parent entries hinner hdir e he target htarget
  rw [target?_modify ht] at htarget
  rw [depth_congr fun j _ => parent?_modify hd t i j]
  rw [directory?_modify hd] at hdir
  split at hdir
  · obtain ⟨⟨_, es⟩, hold, hpair⟩ := Option.map_eq_some_iff.mp hdir
    cases hpair
    rcases hg es e he with hmem | hplain
    · exact h d _ es hinner hold e hmem target htarget
    · rw [hplain] at htarget
      cases htarget
  · exact h d parent entries hinner hdir e he target htarget

theorem push (h : LinksStay s top t) {n : Node} (hn : n.target? = none)
    (hempty : ∀ parent entries, n.directory? = some (parent, entries) → entries = []) :
    LinksStay s top { t with nodes := t.nodes.push n } := by
  intro d parent entries hinner hdir e he target htarget
  rcases directory?_push_of_some hdir with hold | ⟨-, hnew⟩
  · have hlt := lt_of_directory? hold
    rw [depth_congr fun j hj => parent?_push_of_lt n (by omega : j < t.nodes.size)]
    exact h d parent entries hinner hold e he target (target?_push_of_some hn htarget)
  · rw [hempty _ _ hnew] at he
    cases he

end LinksStay

structure Closed (s : FileTree) (top : Nat) (t : FileTree) : Prop where
  confined : Confined s top t
  links : LinksStay s top t

/-- An empty directory is closed. -/
theorem closed_refl {s : FileTree} {top parent : Nat} (h : s.directory? top = some (parent, [])) :
    Closed s top s := by
  have hinner {d : Nat} {p : Nat × List (String × Nat)} (hd : s.IsInner top d)
      (hdir : s.directory? d = some p) : d = top :=
    hd.resolve_right fun hge => absurd (lt_of_directory? hdir) (Nat.not_lt.mpr hge)
  have hnone {d parent : Nat} {entries : List (String × Nat)} (hd : s.IsInner top d)
      (hdir : s.directory? d = some (parent, entries)) : entries = [] := by
    rw [hinner hd hdir, h] at hdir
    cases hdir
    rfl
  constructor
  · refine ⟨rfl, fun _ => rfl, ⟨parent, [], h, h⟩, ?_, ?_, Nat.le_refl _⟩
    · intro d parent entries hd hdir e he
      rw [hnone hd hdir] at he
      cases he
    · intro d parent entries hge hdir
      exact absurd (lt_of_directory? hdir) (Nat.not_lt.mpr hge)
  · intro d parent entries hd hdir e he
    rw [hnone hd hdir] at he
    cases he

section Change
variable {s t : FileTree} {top d : Nat} {name : String}

theorem Confined.enter (h : Confined s top t) (hd : s.IsInner top d) {node : Nat}
    (hnode : s.nodes.size ≤ node) : Confined s top (t.enter d name node) := by
  apply h.modify hd (g := ((name, node) :: ·))
  · intro n
    cases n <;> rfl
  · intro es e he
    rcases List.mem_cons.mp he with rfl | he
    · exact .inr hnode
    · exact .inl he

theorem LinksStay.enter (h : LinksStay s top t) {node : Nat} (hnode : t.target? node = none) :
    LinksStay s top (t.enter d name node) := by
  apply h.modify (g := ((name, node) :: ·))
  · intro n
    cases n <;> rfl
  · intro n
    cases n <;> rfl
  · intro es e he
    rcases List.mem_cons.mp he with rfl | he
    · exact .inr hnode
    · exact .inl he

/-- What is added inside is inside. -/
theorem Confined.add (h : Confined s top t) (hd : s.IsInner top d)
    {p : Nat × List (String × Nat)} (hdir : t.directory? d = some p) {n : Node}
    (hn : n.directory? = none ∨ n.directory? = some (d, [])) :
    Confined s top (t.add d name n).1 := by
  refine Confined.enter (h.push ?_) hd h.grown
  intro parent entries hnew
  rcases hn with hn | hn
  · rw [hn] at hnew
    cases hnew
  · rw [hn] at hnew
    cases hnew
    exact ⟨hd, lt_of_directory? hdir, rfl⟩

theorem Closed.add (h : Closed s top t) (hd : s.IsInner top d)
    {p : Nat × List (String × Nat)} (hdir : t.directory? d = some p) {n : Node}
    (hn : n.directory? = none ∨ n.directory? = some (d, [])) (ht : n.target? = none) :
    Closed s top (t.add d name n).1 := by
  refine ⟨h.confined.add hd hdir hn, LinksStay.enter (h.links.push ht ?_) ?_⟩
  · intro parent entries hnew
    rcases hn with hn | hn
    · rw [hn] at hnew
      cases hnew
    · rw [hn] at hnew
      cases hnew
      rfl
  · simp only [target?, Array.getElem?_push_size]
    exact ht

/-- Modes and contents inside may be changed. -/
theorem Closed.modify (h : Closed s top t) {i : Nat} (hi : s.IsInner top i) {f : Node → Node}
    (hf : ∀ n, (f n).directory? = n.directory? ∧ (f n).target? = n.target?) :
    Closed s top { t with nodes := t.nodes.modify i f } := by
  have hsame (n : Node) : (f n).directory? = n.directory?.map (Prod.map id id) := by
    rw [(hf n).1, Prod.map_id, Option.map_id_fun, id_eq]
  exact ⟨h.confined.modify hi hsame fun _ _ he => .inl he,
    h.links.modify hsame (fun n => (hf n).2) fun _ _ he => .inl he⟩

end Change

end BackupVolume.FileTree
