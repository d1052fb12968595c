import BackupVolume.FileTree.Change
import BackupVolume.Proofs.FileTree.Walk

/-! # Outlines of trees

The outline of a tree is the tree without the modes and contents of its files. Where a path leads is
told by the outline, and so is whether directories and files can be made; what is made changes the
outline in the same way. So one may know what creating files does without knowing their contents.
-/
namespace BackupVolume.FileTree

def Node.outline : Node → Node
  | .file .. => .file 0 #[]
  | n => n

def outline (t : FileTree) : FileTree := { t with nodes := t.nodes.map Node.outline }

def outlined {α : Type} (r : FileTree × α) : FileTree × α := (r.1.outline, r.2)

@[simp] theorem getElem?_outline (t : FileTree) (i : Nat) :
    t.outline.nodes[i]? = t.nodes[i]?.map Node.outline := Array.getElem?_map

@[simp] theorem size_outline (t : FileTree) : t.outline.nodes.size = t.nodes.size := Array.size_map

@[simp] theorem Node.outline_outline (n : Node) : n.outline.outline = n.outline := by cases n <;> rfl

theorem directory?_outline (t : FileTree) (d : Nat) :
    t.outline.directory? d = t.directory? d := by
  rw [directory?, getElem?_outline, directory?]
  rcases t.nodes[d]? with _ | _ | _ | _ <;> rfl

theorem target?_outline (t : FileTree) (d : Nat) : t.outline.target? d = t.target? d := by
  rw [target?, getElem?_outline, target?]
  rcases t.nodes[d]? with _ | _ | _ | _ <;> rfl

@[simp] theorem isDirectory_outline (t : FileTree) (d : Nat) :
    t.outline.isDirectory d = t.isDirectory d := by
  unfold isDirectory entries?
  rw [getElem?_outline]
  rcases t.nodes[d]? with _ | _ | _ | _ <;> rfl

@[simp] theorem handedOn_outline (t : FileTree) (d : Nat) :
    t.outline.handedOn d = t.handedOn d := by
  unfold handedOn
  rw [getElem?_outline]
  rcases t.nodes[d]? with _ | _ | _ | _ <;> rfl

section Lookup
variable (t : FileTree) (follow fromRoot : Bool)

@[simp] theorem placeOf_outline (parts : List String) :
    t.outline.placeOf follow fromRoot parts = t.placeOf follow fromRoot parts := by
  exact walk_congr t.directory?_outline t.target?_outline _ _ _

@[simp] theorem locate_outline (path : String) (keepSlash : Bool) :
    t.outline.locate follow path keepSlash = t.locate follow path keepSlash := by
  simp only [locate, placeOf_outline]

@[simp] theorem leadsToDirectory_outline (parts : List String) :
    t.outline.leadsToDirectory fromRoot parts = t.leadsToDirectory fromRoot parts := by
  have hd : t.outline.isDirectory = t.isDirectory := funext t.isDirectory_outline
  simp only [leadsToDirectory, placeOf_outline, hd]

end Lookup

section Make
variable (t : FileTree) (fromRoot : Bool)

/-- Changing one node changes the outline in the same way, if the outline of the node tells how. -/
theorem outline_modify (node : Nat) (f g : Node → Node) (h : ∀ n, (f n).outline = g n.outline) :
    ({ t with nodes := t.nodes.modify node f } : FileTree).outline
      = { t.outline with nodes := t.outline.nodes.modify node g } := by
  unfold outline
  congr 1
  apply Array.ext_getElem?
  intro i
  simp only [Array.getElem?_map, Array.getElem?_modify]
  by_cases hi : node = i
  · simp only [if_pos hi, Option.map_map]
    congr 1
    exact funext h
  · simp only [if_neg hi]

/-- A change of modes and contents leaves the outline as it is. -/
theorem outline_modify_same {node : Nat} {f : Node → Node}
    (h : ∀ n, t.nodes[node]? = some n → (f n).outline = n.outline) :
    ({ t with nodes := t.nodes.modify node f } : FileTree).outline = t.outline := by
  unfold outline
  congr 1
  apply Array.ext_getElem?
  intro i
  simp only [Array.getElem?_map, Array.getElem?_modify]
  by_cases hi : node = i
  · subst hi
    rw [if_pos rfl, Option.map_map]
    exact Option.map_congr h
  · rw [if_neg hi]

theorem outline_enter (directory : Nat) (name : String) (node : Nat) :
    (t.enter directory name node).outline = t.outline.enter directory name node := by
  apply outline_modify
  intro n
  cases n <;> rfl

theorem add_outline (directory : Nat) (name : String) (n : Node) :
    t.outline.add directory name n.outline = outlined (t.add directory name n) := by
  unfold add outlined
  simp only [outline_enter, size_outline]
  unfold outline
  rw [Array.map_push]

theorem makeAt_outline (place : Place) : t.outline.makeAt place = outlined (t.makeAt place) := by
  unfold makeAt
  split
  · rename_i directory name
    have hadd := t.add_outline directory name
      (.directory (newDirectoryMode ||| t.handedOn directory) directory [])
    simp only [Node.outline] at hadd
    rw [handedOn_outline, hadd]
    rfl
  · rfl

theorem makeParts_outline (parts : List String) :
    t.outline.makeParts fromRoot parts = outlined (t.makeParts fromRoot parts) := by
  unfold makeParts
  rw [placeOf_outline]
  split
  · rfl
  · exact t.makeAt_outline _

def settle (parts : List String) : FileTree × Except IoFault Unit → FileTree × Except IoFault Unit
  | (t, .ok ()) => (t, .ok ())
  | (t, .error e) => if t.leadsToDirectory fromRoot parts then (t, .ok ()) else (t, .error e)

theorem makeAllParts_cons (part : String) (above : List String) :
    t.makeAllParts fromRoot (part :: above) =
      match t.makeParts fromRoot (part :: above).reverse with
      | (t, .ok ()) => (t, .ok ())
      | (t, .error e) =>
        if e.kind = .notFound then
          match t.makeAllParts fromRoot (Path.parentParts (part :: above)) with
          | (t, .error e) => (t, .error e)
          | (t, .ok ()) => settle fromRoot (part :: above).reverse
              (t.makeParts fromRoot (part :: above).reverse)
        else settle fromRoot (part :: above).reverse (t, .error e) := by
  rw [makeAllParts]
  rfl

theorem settle_outlined (parts : List String) (r : FileTree × Except IoFault Unit) :
    settle fromRoot parts (outlined r) = outlined (settle fromRoot parts r) := by
  obtain ⟨t, e | ⟨⟨⟩⟩⟩ := r
  · simp only [outlined, settle, leadsToDirectory_outline]
    split <;> rfl
  · rfl

theorem makeAllParts_outline (reversed : List String) :
    t.outline.makeAllParts fromRoot reversed = outlined (t.makeAllParts fromRoot reversed) := by
  induction hn : reversed.length using Nat.strongRecOn generalizing t reversed with
  | _ n ih =>
    cases reversed with
    | nil => rw [makeAllParts, makeAllParts, outlined]
    | cons part above =>
      have habove (t : FileTree) := ih _ (hn ▸ Path.length_parentParts_lt) t
        (Path.parentParts (part :: above)) rfl
      rw [makeAllParts_cons, makeAllParts_cons, makeParts_outline]
      rcases t.makeParts fromRoot (part :: above).reverse with ⟨u, e | ⟨⟨⟩⟩⟩
      · simp only [outlined]
        split
        · rw [habove]
          rcases u.makeAllParts fromRoot (Path.parentParts (part :: above)) with ⟨v, e | ⟨⟨⟩⟩⟩
          · rfl
          · simp only [outlined]
            rw [makeParts_outline, settle_outlined]
            rfl
        · exact settle_outlined fromRoot _ (u, .error e)
      · rfl

theorem makeAll_outline (path : String) :
    t.outline.makeAll path = outlined (t.makeAll path) := by
  unfold makeAll
  simp only [makeAllParts_outline]
  split <;> rfl

@[simp] theorem outline_outline : t.outline.outline = t.outline := by
  have hnode : Node.outline ∘ Node.outline = Node.outline := funext Node.outline_outline
  simp only [outline, Array.map_map, hnode]

/-- What is opened does not depend on modes and contents. -/
theorem openEmpty_outline (path : String) :
    outlined (t.outline.openEmpty path) = outlined (t.openEmpty path) := by
  unfold openEmpty
  rw [locate_outline]
  rcases t.locate true path false with e | _ | ⟨directory, name, _ | node⟩
  · rw [outlined, outline_outline]
    rfl
  · rw [outlined, outline_outline]
    rfl
  · simp only
    split
    · rw [outlined, outline_outline]
      rfl
    · have hadd := t.add_outline directory name (.file newFileMode #[])
      have hthere := t.outline.add_outline directory name (.file newFileMode #[])
      rw [outline_outline, hadd] at hthere
      exact congrArg (fun r : FileTree × Nat => (r.1, Except.ok r.2)) hthere.symm
  · simp only [isDirectory_outline]
    split
    · rw [outlined, outline_outline]
      rfl
    · split
      · rw [outlined, outline_outline]
        rfl
      · have hkept (t : FileTree) : ({ t with nodes := t.nodes.modify node fun
            | .file mode _ => .file mode #[]
            | n => n } : FileTree).outline = t.outline := by
          apply outline_modify_same
          intro n _
          cases n <;> rfl
        exact Prod.ext ((hkept t.outline).trans (t.outline_outline.trans (hkept t).symm)) rfl

end Make

section Congr
variable {t u : FileTree} (h : t.outline = u.outline) (path : String)
include h

theorem content?_congr {node : Nat} {content : Array UInt8} (hu : u.content? node = some content) :
    ∃ content, t.content? node = some content := by
  have hnode : t.nodes[node]?.map Node.outline = u.nodes[node]?.map Node.outline := by
    rw [← getElem?_outline, h, getElem?_outline]
  rw [content?_eq] at hu ⊢
  rcases hn : u.nodes[node]? with _ | _ | _ | _ <;> rcases hm : t.nodes[node]? with _ | _ | _ | _ <;>
    simp_all [Node.content?, Node.outline]

theorem makeAll_congr : outlined (t.makeAll path) = outlined (u.makeAll path) := by
  rw [← makeAll_outline, h, makeAll_outline]

theorem openEmpty_congr : outlined (t.openEmpty path) = outlined (u.openEmpty path) := by
  rw [← openEmpty_outline, h, openEmpty_outline]

end Congr

end BackupVolume.FileTree
