import BackupVolume.FileTree.Basic

/-! # Where paths lead

A path is followed from directory to directory, and where it leads depends on nothing but
directories and links. When a tree grows, names are added and contents of files are changed, but no
name gets another meaning; so every path that led somewhere still leads there.
-/
namespace BackupVolume.FileTree

namespace Node

def directory? : Node → Option (Nat × List (String × Nat))
  | .directory _ parent entries => some (parent, entries)
  | _ => none

def target? : Node → Option String
  | .link target => some target
  | _ => none

def content? : Node → Option (Array UInt8)
  | .file _ content => some content
  | _ => none

end Node

def directory? (t : FileTree) (node : Nat) : Option (Nat × List (String × Nat)) :=
  t.nodes[node]?.bind Node.directory?

def target? (t : FileTree) (node : Nat) : Option String := t.nodes[node]?.bind Node.target?

theorem content?_eq (t : FileTree) (node : Nat) :
    t.content? node = t.nodes[node]?.bind Node.content? := by
  unfold content?
  rcases t.nodes[node]? with _ | _ | _ | _ <;> rfl

section Walk
variable {t u : FileTree} {follow : Bool}

theorem walk_cons (t : FileTree) (follow : Bool) (budget directory : Nat) (name : String)
    (rest : List String) :
    t.walk follow budget directory (name :: rest) =
      match t.directory? directory with
      | none => .error notADirectory
      | some (parent, entries) =>
        if name = "." then t.walk follow budget directory rest
        else if name = ".." then t.walk follow budget parent rest
        else if maxNameLength < name.utf8ByteSize then .error nameTooLong
        else
          match entries.lookup name with
          | none => if rest.isEmpty then .ok (.entry directory name none) else .error notFound
          | some node =>
            match t.target? node with
            | none =>
              if rest.isEmpty then .ok (.entry directory name (some node))
              else t.walk follow budget node rest
            | some target =>
              if rest.isEmpty && !follow then .ok (.entry directory name (some node))
              else
                match budget with
                | 0 => .error linkLoop
                | budget + 1 =>
                  let path := Path.ofString target
                  t.walk follow budget (if path.fromRoot then root else directory)
                    (path.parts ++ ((if path.isDirectory then ["."] else []) ++ rest)) := by
  rw [walk]
  unfold directory? target?
  rcases t.nodes[directory]? with _ | _ | ⟨mode, parent, entries⟩ | _
  · rfl
  · rfl
  · simp only [Option.bind_some, Node.directory?]
    rcases entries.lookup name with _ | node
    · rfl
    · simp only
      rcases t.nodes[node]? with _ | _ | _ | _ <;> rfl
  · rfl

/-- A path is followed part by part, and with less budget behind a link. -/
theorem walk_induction {motive : Nat → Nat → List String → Prop}
    (nil : ∀ budget directory, motive budget directory [])
    (cons : ∀ budget directory name rest, (∀ directory, motive budget directory rest) →
      (∀ less, less < budget → ∀ directory parts, motive less directory parts) →
      motive budget directory (name :: rest))
    (budget directory : Nat) (parts : List String) : motive budget directory parts := by
  induction budget using Nat.strongRecOn generalizing directory parts with
  | _ budget above =>
    induction parts generalizing directory with
    | nil => exact nil budget directory
    | cons name rest ih => exact cons budget directory name rest ih above

structure Path.IsLookedUp (name : String) : Prop where
  ne_dot : name ≠ "."
  ne_up : name ≠ ".."
  short : name.utf8ByteSize ≤ maxNameLength

/-- How a path is followed to a place, one rule for each kind of part. -/
inductive Walks (t : FileTree) (follow : Bool) : Nat → Nat → List String → Place → Prop
  | nil (budget directory : Nat) : Walks t follow budget directory [] (.unnamed directory)
  | dot {budget directory : Nat} {p : Nat × List (String × Nat)} {rest : List String}
      {place : Place} (hd : t.directory? directory = some p)
      (walks : Walks t follow budget directory rest place) :
      Walks t follow budget directory ("." :: rest) place
  | up {budget directory parent : Nat} {entries : List (String × Nat)} {rest : List String}
      {place : Place} (hd : t.directory? directory = some (parent, entries))
      (walks : Walks t follow budget parent rest place) :
      Walks t follow budget directory (".." :: rest) place
  | free {budget directory parent : Nat} {entries : List (String × Nat)} {name : String}
      (hd : t.directory? directory = some (parent, entries)) (hn : Path.IsLookedUp name)
      (hl : entries.lookup name = none) :
      Walks t follow budget directory [name] (.entry directory name none)
  | last {budget directory parent : Nat} {entries : List (String × Nat)} {name : String}
      {node : Nat} (hd : t.directory? directory = some (parent, entries))
      (hn : Path.IsLookedUp name) (hl : entries.lookup name = some node)
      (ht : t.target? node = none ∨ follow = false) :
      Walks t follow budget directory [name] (.entry directory name (some node))
  | into {budget directory parent : Nat} {entries : List (String × Nat)} {name : String}
      {node : Nat} {rest : List String} {place : Place}
      (hd : t.directory? directory = some (parent, entries)) (hn : Path.IsLookedUp name)
      (hl : entries.lookup name = some node) (ht : t.target? node = none) (hr : rest ≠ [])
      (walks : Walks t follow budget node rest place) :
      Walks t follow budget directory (name :: rest) place
  | link {budget directory parent : Nat} {entries : List (String × Nat)} {name target : String}
      {node : Nat} {rest : List String} {place : Place}
      (hd : t.directory? directory = some (parent, entries)) (hn : Path.IsLookedUp name)
      (hl : entries.lookup name = some node) (ht : t.target? node = some target)
      (hr : rest ≠ [] ∨ follow = true)
      (walks : Walks t follow budget (if (Path.ofString target).fromRoot then root else directory)
        ((Path.ofString target).parts
          ++ ((if (Path.ofString target).isDirectory then ["."] else []) ++ rest)) place) :
      Walks t follow (budget + 1) directory (name :: rest) place

theorem walks_of_walk {budget directory : Nat} {parts : List String} {place : Place}
    (h : t.walk follow budget directory parts = .ok place) :
    Walks t follow budget directory parts place := by
  induction budget, directory, parts using walk_induction with
  | nil budget directory =>
    rw [walk] at h
    cases h
    exact .nil budget directory
  | cons budget directory name rest ih above =>
    rw [walk_cons] at h
    rcases hd : t.directory? directory with _ | ⟨parent, entries⟩
    · simp only [hd, reduceCtorEq] at h
    simp only [hd] at h
    split at h
    · next hdot =>
      subst hdot
      exact .dot hd (ih _ h)
    split at h
    · next hup =>
      subst hup
      exact .up hd (ih _ h)
    split at h
    · cases h
    next hdot hup hlong =>
    have hn : Path.IsLookedUp name := ⟨hdot, hup, Nat.not_lt.mp hlong⟩
    rcases hl : entries.lookup name with _ | node
    · simp only [hl] at h
      split at h
      · next hlast =>
        obtain rfl := List.isEmpty_iff.mp hlast
        cases h
        exact .free hd hn hl
      · cases h
    simp only [hl] at h
    rcases ht : t.target? node with _ | target
    · simp only [ht] at h
      split at h
      · next hlast =>
        obtain rfl := List.isEmpty_iff.mp hlast
        cases h
        exact .last hd hn hl (.inl ht)
      · next hmore => exact .into hd hn hl ht (by simpa using hmore) (ih _ h)
    · simp only [ht] at h
      split at h
      · next hkeep =>
        rw [Bool.and_eq_true, List.isEmpty_iff, Bool.not_eq_true'] at hkeep
        obtain ⟨rfl, hfollow⟩ := hkeep
        cases h
        exact .last hd hn hl (.inr hfollow)
      · next hfollow =>
        cases budget with
        | zero => cases h
        | succ budget =>
          have hr : rest ≠ [] ∨ follow = true := by
            cases rest with
            | nil => exact .inr (by simpa using hfollow)
            | cons part rest => exact .inl (List.cons_ne_nil part rest)
          exact .link hd hn hl ht hr (above budget (Nat.lt_succ_self budget) _ _ h)

theorem Walks.walk {budget directory : Nat} {parts : List String} {place : Place}
    (h : Walks t follow budget directory parts place) :
    t.walk follow budget directory parts = .ok place := by
  induction h with
  | nil budget directory => rw [FileTree.walk]
  | dot hd walks ih =>
    rw [walk_cons, hd]
    exact ih
  | up hd walks ih =>
    rw [walk_cons, hd]
    exact ih
  | free hd hn hl =>
    rw [walk_cons, hd]
    simp only [hn.ne_dot, hn.ne_up, Nat.not_lt.mpr hn.short, hl, if_false]
    rfl
  | @last budget directory _ _ name node hd hn hl ht =>
    rw [walk_cons, hd]
    simp only [hn.ne_dot, hn.ne_up, Nat.not_lt.mpr hn.short, hl, if_false]
    rcases ht with ht | rfl
    · rw [ht]
      rfl
    · rcases t.target? node with _ | target <;> rfl
  | into hd hn hl ht hr walks ih =>
    have hmore := List.isEmpty_eq_false_iff.mpr hr
    rw [walk_cons, hd]
    simp only [hn.ne_dot, hn.ne_up, Nat.not_lt.mpr hn.short, hl, ht, hmore, if_false,
      Bool.false_eq_true]
    exact ih
  | @link _ _ _ _ _ _ _ rest _ hd hn hl ht hr walks ih =>
    have hfollow : (rest.isEmpty && !follow) = false := by
      rcases hr with hr | rfl
      · rw [List.isEmpty_eq_false_iff.mpr hr, Bool.false_and]
      · exact Bool.and_false _
    rw [walk_cons, hd]
    simp only [hn.ne_dot, hn.ne_up, Nat.not_lt.mpr hn.short, hl, ht, hfollow, if_false,
      Bool.false_eq_true]
    exact ih

/-- Where a path leads is told by the directories and the links. -/
theorem walk_congr (hd : ∀ i, u.directory? i = t.directory? i)
    (ht : ∀ i, u.target? i = t.target? i) (budget directory : Nat) (parts : List String) :
    u.walk follow budget directory parts = t.walk follow budget directory parts := by
  induction budget, directory, parts using walk_induction with
  | nil budget directory => rw [walk, walk]
  | cons budget directory name rest ih above =>
    rw [walk_cons, walk_cons, hd]
    cases budget with
    | zero => simp only [ht, ih]
    | succ budget => simp only [ht, ih, above budget (Nat.lt_succ_self budget)]

/-- A path that leads to a name leads into a directory, and the name is free there or not. -/
theorem walk_entry {budget directory : Nat} {parts : List String} {d : Nat} {name : String}
    {node : Option Nat} (h : t.walk follow budget directory parts = .ok (.entry d name node)) :
    ∃ parent entries, t.directory? d = some (parent, entries) ∧ entries.lookup name = node := by
  have hw := walks_of_walk h
  clear h
  generalize hp : Place.entry d name node = place at hw
  induction hw with
  | nil => cases hp
  | dot _ _ ih => exact ih hp
  | up _ _ ih => exact ih hp
  | free hd _ hl =>
    cases hp
    exact ⟨_, _, hd, hl⟩
  | last hd _ hl _ =>
    cases hp
    exact ⟨_, _, hd, hl⟩
  | into _ _ _ _ _ _ ih => exact ih hp
  | link _ _ _ _ _ _ ih => exact ih hp

end Walk

theorem locate_entry {t : FileTree} {follow keepSlash : Bool} {path : String} {d : Nat}
    {name : String} {node : Option Nat}
    (h : t.locate follow path keepSlash = .ok (.entry d name node)) :
    ∃ parent entries, t.directory? d = some (parent, entries) ∧ entries.lookup name = node := by
  unfold locate at h
  split at h
  · cases h
  split at h
  · cases h
  · exact walk_entry h

theorem find_eq_ok {t : FileTree} {follow : Bool} {path : String} {node : Nat} :
    t.find follow path = .ok node ↔
      ∃ place, t.locate follow path = .ok place ∧ place.node? = some node := by
  unfold find
  rcases t.locate follow path with e | place
  · simp [bind, Except.bind]
  · rcases hn : place.node? with _ | k
    · simp [bind, Except.bind, hn]
    · simp [bind, Except.bind, hn, pure, Except.pure]

theorem target?_of_content? {t : FileTree} {node : Nat} {content : Array UInt8}
    (h : t.content? node = some content) : t.target? node = none := by
  rw [content?_eq] at h
  rw [target?]
  rcases hn : t.nodes[node]? with _ | _ | _ | _ <;> simp_all [Node.content?, Node.target?]

/-- Where a path led is there still, and more may be; but for one file all contents are as they
were. -/
structure Grows (file : Nat) (t u : FileTree) : Prop where
  working : u.working = t.working
  target (node : Nat) : u.target? node = t.target? node
  directory {d parent : Nat} {entries : List (String × Nat)} :
    t.directory? d = some (parent, entries) → ∃ more, u.directory? d = some (parent, more) ∧
      ∀ name node, entries.lookup name = some node → more.lookup name = some node
  content {node : Nat} {content : Array UInt8} : node ≠ file → t.content? node = some content →
    u.content? node = some content

namespace Grows
variable {file : Nat} {t u v : FileTree}

theorem refl (file : Nat) (t : FileTree) : Grows file t t :=
  ⟨rfl, fun _ => rfl, fun h => ⟨_, h, fun _ _ h => h⟩, fun _ h => h⟩

theorem trans (h : Grows file t u) (k : Grows file u v) : Grows file t v where
  working := k.working.trans h.working
  target node := (k.target node).trans (h.target node)
  directory hd := by
    obtain ⟨more, hm, hmore⟩ := h.directory hd
    obtain ⟨most, hp, hmost⟩ := k.directory hm
    exact ⟨most, hp, fun name node hl => hmost name node (hmore name node hl)⟩
  content hn hc := k.content hn (h.content hn hc)

def now (u : FileTree) : Place → Place
  | .entry d name none => .entry d name ((u.directory? d).bind fun p => p.2.lookup name)
  | place => place

/-- A path that led somewhere leads there still, unless a link has taken a free name at its end. -/
theorem walk (h : Grows file t u) {follow : Bool} {budget directory : Nat} {parts : List String}
    {place : Place} (hw : t.walk follow budget directory parts = .ok place)
    (hf : ∀ d name node, place = .entry d name none → now u place = .entry d name (some node) →
      u.target? node = none) :
    u.walk follow budget directory parts = .ok (now u place) := by
  refine Walks.walk ?_
  have hwalks := walks_of_walk hw
  clear hw
  induction hwalks with
  | nil budget directory => exact .nil budget directory
  | dot hd _ ih =>
    obtain ⟨more, hm, -⟩ := h.directory hd
    exact .dot hm (ih hf)
  | up hd _ ih =>
    obtain ⟨more, hm, -⟩ := h.directory hd
    exact .up hm (ih hf)
  | @free budget directory _ _ name hd hn _ =>
    obtain ⟨more, hm, -⟩ := h.directory hd
    have hnow : now u (.entry directory name none) = .entry directory name (more.lookup name) := by
      simp only [now, hm, Option.bind_some]
    rw [hnow]
    rcases hk : more.lookup name with _ | node
    · exact .free hm hn hk
    · exact .last hm hn hk (.inl (hf directory name node rfl (hnow.trans (by rw [hk]))))
  | last hd hn hl ht =>
    obtain ⟨more, hm, hmore⟩ := h.directory hd
    exact .last hm hn (hmore _ _ hl) (ht.imp_left (h.target _).trans)
  | into hd hn hl ht hr _ ih =>
    obtain ⟨more, hm, hmore⟩ := h.directory hd
    exact .into hm hn (hmore _ _ hl) ((h.target _).trans ht) hr (ih hf)
  | link hd hn hl ht hr _ ih =>
    obtain ⟨more, hm, hmore⟩ := h.directory hd
    exact .link hm hn (hmore _ _ hl) ((h.target _).trans ht) hr (ih hf)

theorem locate (h : Grows file t u) {follow keepSlash : Bool} {path : String} {place : Place}
    (hl : t.locate follow path keepSlash = .ok place)
    (hf : ∀ d name node, place = .entry d name none → now u place = .entry d name (some node) →
      u.target? node = none) :
    u.locate follow path keepSlash = .ok (now u place) := by
  unfold FileTree.locate at hl ⊢
  split at hl
  · cases hl
  split at hl
  · cases hl
  rename_i hempty hlong
  rw [if_neg hempty, if_neg hlong]
  unfold placeOf at hl ⊢
  rw [h.working]
  exact h.walk hl hf

theorem find (h : Grows file t u) {follow : Bool} {path : String} {node : Nat}
    (hn : t.find follow path = .ok node) : u.find follow path = .ok node := by
  obtain ⟨place, hl, hnode⟩ := find_eq_ok.mp hn
  have hsame : now u place = place := by
    rcases place with d | ⟨d, name, _ | k⟩
    · rfl
    · cases hnode
    · rfl
  have hplace := h.locate hl fun d name k hp _ => by
    rw [hp] at hnode
    cases hnode
  rw [hsame] at hplace
  exact find_eq_ok.mpr ⟨place, hplace, hnode⟩

end Grows
end BackupVolume.FileTree
