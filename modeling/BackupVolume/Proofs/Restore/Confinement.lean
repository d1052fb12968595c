import BackupVolume.Proofs.FileTree.Enclosure
import BackupVolume.Proofs.Restore.Decoding
import BackupVolume.Proofs.Restore.Keeping
import BackupVolume.Proofs.Restore.LocalFiles
import BackupVolume.Proofs.Restore.Origins

/-! # Files are restored below one directory

Names that lead upwards or nowhere are passed over, and all other names are followed from the
directory that files are restored into. So what an extraction makes, removes, empties or writes to
lies below that directory, up to the first link that leads out of it. What is restored behind such a
link may be anywhere.
-/
namespace BackupVolume
open FileTree

namespace LocalFiles

theorem descends_of_parts? {name : String} {names : List String} (h : parts? name = some names) :
    names ≠ [] ∧ ∀ n ∈ names, Path.Descends n := by
  rw [parts?] at h
  split at h
  · cases h
  next hplain =>
  cases h
  rw [Bool.or_eq_true, not_or, List.isEmpty_iff, List.contains_iff_mem] at hplain
  refine ⟨hplain.1, fun n hn => ⟨?_, ?_, ?_⟩⟩
  · exact Path.isName_of_mem_partsOf (List.mem_filter.mp hn).1
  · exact bne_iff_ne.mp (List.mem_filter.mp hn).2
  · rintro rfl
    exact hplain.2 hn

theorem parts?_eq_none {name : String}
    (h : ".." ∈ Path.partsOf name ∨ ∀ part ∈ Path.partsOf name, part = ".") :
    parts? name = none := by
  rw [parts?]
  refine if_pos ?_
  rw [Bool.or_eq_true, List.isEmpty_iff, List.contains_iff_mem]
  rcases h with hup | hdots
  · exact .inr (List.mem_filter.mpr ⟨hup, by decide⟩)
  · refine .inl (List.filter_eq_nil_iff.mpr fun part hpart => ?_)
    rw [hdots part hpart]
    decide

/-- A name that leads upwards or nowhere is passed over. -/
theorem create_skipped (c : LocalFiles) {a : Attributes}
    (h : ".." ∈ Path.partsOf a.name ∨ ∀ part ∈ Path.partsOf a.name, part = ".") :
    c.create a = (c, .ok .skipped) := by
  rw [create, target?, parts?_eq_none h]
  rfl

def IsBelow (root path : String) : Prop :=
  ∃ names, names ≠ [] ∧ (∀ n ∈ names, Path.Descends n) ∧ path = names.foldl Path.push root

theorem isBelow_of_target? {root name path : String} (h : target? root name = some path) :
    IsBelow root path := by
  obtain ⟨names, hparts, hpath⟩ := Option.map_eq_some_iff.mp h
  obtain ⟨hne, hn⟩ := descends_of_parts? hparts
  exact ⟨names, hne, hn, hpath.symm⟩

/-- What holds after one change and is kept by the next one. -/
theorem andThen_of {P Q : FileTree → Prop} {r : FileTree × Except IoFault Unit}
    {next : FileTree → FileTree × Except IoFault Unit} (h : P r.1)
    (hstop : ∀ t, P t → Q t) (hnext : ∀ t, P t → Q (next t).1) : Q (andThen r next).1 := by
  obtain ⟨t, e | ⟨⟨⟩⟩⟩ := r
  · exact hstop t h
  · exact hnext t h

section Enclosed
variable {s t : FileTree} {top : Nat} {root path : String}

theorem closed_applyMode (h : Closed s top t) (hr : s.LeadsTo root top) (hp : IsBelow root path)
    (mode : UInt32) : Closed s top (applyMode t path mode).1 := by
  obtain ⟨names, hne, hn, rfl⟩ := hp
  rw [applyMode]
  split
  · exact h
  · exact h.setMode hr hne hn _

theorem closed_clear (h : Closed s top t) (hr : s.LeadsTo root top) (hp : IsBelow root path) :
    Closed s top (clear t path).1 := by
  obtain ⟨names, hne, hn, rfl⟩ := hp
  rw [clear]
  split
  · exact h.remove hr hne hn
  · exact h

theorem closed_directoryOf (h : Closed s top t) (hr : s.LeadsTo root top) (name : String) :
    Closed s top (t.makeAll (directoryOf root name)).1 := by
  rw [directoryOf]
  refine h.makeAll hr fun n hn => ?_
  rcases hparts : parts? name with _ | names
  · rw [hparts] at hn
    cases hn
  · rw [hparts] at hn
    exact (descends_of_parts? hparts).2 n (List.dropLast_subset names hn)

/-- A file that is created is made below the root, or was made there before. -/
theorem confined_createAt (h : Closed s top t) (hr : s.LeadsTo root top) (hp : IsBelow root path)
    (a : Attributes) :
    Confined s top (createAt root t path a).1 ∧
      ∀ f, FileCreator.opened? (createAt root t path a).2 = some f →
        s.nodes.size ≤ f.node ∧ f.path = path := by
  obtain ⟨names, hne, hn, hpath⟩ := id hp
  have hopens : Confined s top (t.openEmpty path).1 ∧
      ∀ f, FileCreator.opened? ((t.openEmpty path).2.map fun node => Disposition.file
        ({ node, path } : LocalFile)) = some f → s.nodes.size ≤ f.node ∧ f.path = path := by
    have hopen := h.openEmpty hr hne hn
    rw [← hpath] at hopen
    refine ⟨hopen.1.confined, fun f hf => ?_⟩
    rcases hnode : (t.openEmpty path).2 with e | node
    · rw [hnode] at hf
      cases hf
    · rw [hnode] at hf
      cases hf
      exact ⟨hopen.2 node hnode, rfl⟩
  have hmade {x : Except IoFault Unit} (f : LocalFile)
      (hf : FileCreator.opened? (x.map fun _ => (Disposition.created : Disposition LocalFile))
        = some f) : s.nodes.size ≤ f.node ∧ f.path = path := by
    rcases x with e | ⟨⟨⟩⟩ <;> cases hf
  unfold createAt
  cases a.type with
  | regular => exact hopens
  | regularEmpty => exact hopens
  | directory =>
    refine ⟨andThen_of (P := Closed s top) ?_ ?_ ?_, hmade⟩
    · rw [hpath]
      exact h.makeAll hr hn
    · exact fun u hu => hu.confined
    · exact fun u hu => (closed_applyMode hu hr hp a.stat.mode).confined
  | symbolicLink =>
    refine ⟨andThen_of (P := Closed s top) (closed_clear h hr hp) ?_ ?_, hmade⟩
    · exact fun u hu => hu.confined
    · intro u hu
      rw [hpath]
      exact hu.makeLink hr hne hn a.link
  | linkSaved =>
    rcases hexisting : target? root a.link with _ | existing
    · exact ⟨h.confined, by rintro f ⟨⟩⟩
    obtain ⟨others, hone, hothers, rfl⟩ := isBelow_of_target? hexisting
    refine ⟨andThen_of (P := Closed s top) (closed_clear h hr hp) ?_ ?_, hmade⟩
    · exact fun u hu => hu.confined
    · intro u hu
      rw [hpath]
      exact hu.makeName hr hne hn hone hothers
  | deleted => exact ⟨h.confined, by rintro f ⟨⟩⟩
  | other => exact ⟨h.confined, by rintro f ⟨⟩⟩

end Enclosed

/-- Only what is below the root has changed since the tree was `s`, and the file that is open was
made there. -/
structure Within (s : FileTree) (top : Nat) (root : String) (c : LocalFiles)
    (o : Option LocalFile) : Prop where
  rooted : c.root = root
  confined : Confined s top c.tree
  opened {f : LocalFile} : o = some f → s.nodes.size ≤ f.node ∧ IsBelow root f.path

/-- As long as no link leads out, all calls stay below the root. -/
theorem carries_within {s : FileTree} {top : Nat} {root : String} (hr : s.LeadsTo root top) :
    FileCreator.Carries (fun (c : LocalFiles) (o : Option LocalFile) =>
      Within s top root c o ∧ LinksStay s top c.tree) (Within s top root) where
  create {c d o a x} := by
    rintro ⟨h, hlinks⟩ hc
    have hclosed : Closed s top c.tree := ⟨h.confined, hlinks⟩
    change c.create a = (d, x) at hc
    rw [create, h.rooted] at hc
    rcases htarget : target? root a.name with _ | path
    · simp only [htarget, Prod.mk.injEq] at hc
      obtain ⟨rfl, rfl⟩ := hc
      exact h
    have hp := isBelow_of_target? htarget
    have hmade := closed_directoryOf hclosed hr a.name
    rcases hm : c.tree.makeAll (directoryOf root a.name) with ⟨t, e | ⟨⟨⟩⟩⟩
    all_goals
      rw [hm] at hmade
      simp only [htarget, hm, Prod.mk.injEq] at hc
      obtain ⟨rfl, rfl⟩ := hc
    · exact ⟨rfl, hmade.confined, h.opened⟩
    obtain ⟨hconfined, hopened⟩ := confined_createAt hmade hr hp a
    refine ⟨rfl, hconfined, fun {f} hf => ?_⟩
    rcases hfile : FileCreator.opened? (createAt root t path a).2 with _ | g
    · rw [hfile] at hf
      exact h.opened hf
    · rw [hfile] at hf
      cases hf
      obtain ⟨hnew, hpath⟩ := hopened f hfile
      exact ⟨hnew, hpath ▸ hp⟩
  seek {c d f address x} := by
    rintro ⟨h, -⟩ hc
    change c.seek f address = (d, x) at hc
    have hfile := h.opened rfl
    rw [seek] at hc
    split at hc <;> cases hc
    · exact h
    · exact ⟨h.rooted, h.confined, by rintro g ⟨⟩; exact hfile⟩
  write {c d f data x} := by
    rintro ⟨h, hlinks⟩ hc
    change c.write f data = (d, x) at hc
    have hfile := h.opened rfl
    have hwritten := (Closed.writeAt ⟨h.confined, hlinks⟩ hfile.1 f.position data).confined
    rw [write] at hc
    rcases hw : c.tree.writeAt f.node f.position data with ⟨t, e | ⟨⟨⟩⟩⟩
    all_goals
      rw [hw] at hwritten hc
      cases hc
      exact ⟨h.rooted, hwritten, by rintro g ⟨⟩; exact hfile⟩
  finish {c d f a x} := by
    rintro ⟨h, hlinks⟩ hc
    change c.finish f a = (d, x) at hc
    obtain ⟨hnew, hp⟩ := h.opened rfl
    cases hc
    refine ⟨h.rooted, ?_, by rintro g ⟨⟩⟩
    refine andThen_of (P := Closed s top) ?_ ?_ ?_
    · exact Closed.extendTo ⟨h.confined, hlinks⟩ hnew _
    · exact fun t ht => ht.confined
    · exact fun t ht => (closed_applyMode ht hr hp a.stat.mode).confined
  abandon := by
    rintro c o ⟨h, -⟩
    exact ⟨h.rooted, h.confined, by rintro f ⟨⟩⟩

end LocalFiles
namespace Extraction

/-- What an extraction into an empty directory makes, removes, empties or writes to lies below that
directory, call by call, up to the first call that leaves a link which leads out. Names that lead
upwards or nowhere are passed over. -/
theorem within_run {σ : Type} [BlockSource σ] {s : FileTree} {root : String} {top parent : Nat}
    (hr : s.LeadsTo root top) (hempty : s.directory? top = some (parent, [])) (o : JobOptions)
    (rules : Rules) (filter : Selection.PathFilter) (decoder : Decoder) (key : Option VolumeKey)
    (source : σ) :
    let start : LocalFiles := { tree := s, root }
    let traced := run o rules filter decoder key
      ({ creator := start } : Traced LocalFiles LocalFile) source
    let steps := traced.creator.steps
    run o rules filter decoder key start source
        = { traced with creator := traced.creator.creator } ∧
      traced.creator.creator = (steps.getLast?.map Prod.fst).getD start ∧
      (∀ before q after, steps = before ++ q :: after →
        (∀ p ∈ before, LinksStay s top p.1.tree) → LocalFiles.Within s top root q.1 q.2) ∧
      ∀ (c : LocalFiles) (a : Attributes),
        (".." ∈ Path.partsOf a.name ∨ ∀ part ∈ Path.partsOf a.name, part = ".") →
        c.create a = (c, .ok .skipped) := by
  intro start traced steps
  have hclosed : Closed s top s := closed_refl hempty
  have hstart : LocalFiles.Within s top root start none :=
    ⟨rfl, hclosed.confined, by rintro f ⟨⟩⟩
  have hdrop {c : LocalFiles} {o : Option LocalFile} (h : LocalFiles.Within s top root c o) :
      LocalFiles.Within s top root c none :=
    ⟨h.rooted, h.confined, by rintro f ⟨⟩⟩
  -- The trace is empty at first, and every call keeps what holds of it.
  have hholds : Traced.Holds (fun c : LocalFiles => LinksStay s top c.tree)
      (LocalFiles.Within s top root) start { creator := start } none := by
    refine ⟨rfl, ?_, fun _ => hstart⟩
    intro before after q hsplit
    exact absurd hsplit.symm (List.append_ne_nil_of_right_ne_nil _ (List.cons_ne_nil q after))
  obtain ⟨opened, hall⟩ := has_run
    (Traced.carries_holds (LocalFiles.carries_within hr) hdrop hclosed.links) o rules filter decoder
    key source hholds
  exact ⟨run_map Traced.untraced o rules filter decoder key { creator := start } source, hall.last,
    fun before q after hsplit hlinks => hall.steps hsplit hlinks,
    fun c a ha => c.create_skipped ha⟩

section Linked

/-- Where a link in a directory leads: to the directory above, or to the same one. -/
inductive Turn where
  | upwards
  | inwards

def Turn.target : Turn → String
  | .upwards => ".."
  | .inwards => "."

def Turn.base : Turn → Nat
  | .upwards => root
  | .inwards => 1

def vacantTree : FileTree where
  nodes := #[.directory 0o755 root [("out", 1)], .directory 0o755 root []]

def linkedTree (turn : Turn) : FileTree := (vacantTree.add 1 "d" (.link turn.target)).1

def behindTree (turn : Turn) : FileTree :=
  ((linkedTree turn).add turn.base "x" (.file newFileMode #[])).1

theorem leadsTo_vacantTree : vacantTree.LeadsTo "/out" 1 := by
  have hpath : Path.ofString "/out" = ⟨true, ["out"], false⟩ := by decide +kernel
  refine ⟨.entry root "out" (some 1), ?_, rfl⟩
  rw [hpath, placeOf, walk_cons]
  rfl

/-- Behind the link a path goes on from the directory that it leads to. -/
theorem walk_linkedTree (turn : Turn) (rest : List String) :
    (linkedTree turn).walk true maxLinks root ("out" :: "d" :: rest)
      = (linkedTree turn).walk true 39 turn.base rest := by
  have htarget : Path.ofString turn.target = ⟨false, [turn.target], false⟩ := by
    cases turn <;> decide +kernel
  have hlink : (linkedTree turn).walk true maxLinks 1 ("d" :: rest)
      = (linkedTree turn).walk true 39 1 (turn.target :: rest) := by
    rw [walk_cons]
    simp only [Bool.not_true, Bool.and_false, Bool.false_eq_true, if_false]
    change (linkedTree turn).walk true 39 (if (Path.ofString turn.target).fromRoot then root else 1)
      ((Path.ofString turn.target).parts
        ++ ((if (Path.ofString turn.target).isDirectory then ["."] else []) ++ rest)) = _
    rw [htarget]
    rfl
  rw [walk_cons]
  change (linkedTree turn).walk true maxLinks 1 ("d" :: rest) = _
  rw [hlink, walk_cons]
  cases turn <;> rfl

theorem leadsTo_linkedTree (turn : Turn) : (linkedTree turn).LeadsTo "/out/d" turn.base := by
  have hpath : Path.ofString "/out/d" = ⟨true, ["out", "d"], false⟩ := by decide +kernel
  refine ⟨.unnamed turn.base, ?_, rfl⟩
  rw [hpath]
  change (linkedTree turn).walk true maxLinks root ["out", "d"] = _
  rw [walk_linkedTree, walk]

/-- The link to the same directory does not lead out. -/
theorem linksStay_inwards : LinksStay vacantTree 1 (linkedTree .inwards) := by
  have hpath : Path.ofString Turn.inwards.target = ⟨false, ["."], false⟩ := by decide +kernel
  intro d parent entries hd hdir e he target htarget
  rcases hd with rfl | hnew
  · cases hdir
    cases List.mem_singleton.mp he
    cases htarget
    rw [hpath]
    exact ⟨rfl, rfl⟩
  · -- What is new is the link.
    have hlt : d < 3 := lt_of_directory? hdir
    have hge : 2 ≤ d := hnew
    obtain rfl : d = 2 := by omega
    cases hdir

def linkAttributes (turn : Turn) : Attributes := ⟨1, 4, "d", {}, turn.target, "", 0⟩
def behindAttributes : Attributes := ⟨2, 3, "d/x", {}, "", "", 0⟩

def behindFile : LocalFile := { node := 3, path := "/out/d/x" }

theorem create_link (turn : Turn) : LocalFiles.create ⟨vacantTree, "/out"⟩ (linkAttributes turn)
    = (⟨linkedTree turn, "/out"⟩, .ok .created) := by
  have htarget : LocalFiles.target? "/out" "d" = some "/out/d" := by decide +kernel
  have hdirectory : LocalFiles.directoryOf "/out" "d" = "/out" := by decide +kernel
  have hpath : Path.ofString "/out/d" = ⟨true, ["out", "d"], false⟩ := by decide +kernel
  have hmake : vacantTree.makeAll "/out" = (vacantTree, .ok ()) :=
    makeAll_of_leadsTo leadsTo_vacantTree rfl (by decide)
  have hplace : vacantTree.locate false "/out/d" = .ok (.entry 1 "d" none) := by
    rw [locate, if_neg (by decide), if_neg (by decide), hpath]
    change vacantTree.walk false maxLinks root ["out", "d"] = _
    rw [walk_cons]
    change vacantTree.walk false maxLinks 1 ["d"] = _
    rw [walk_cons]
    rfl
  have hfree : vacantTree.find false "/out/d" = .error notFound := by
    rw [find, hplace]
    rfl
  rw [LocalFiles.create, show (linkAttributes turn).name = "d" from rfl, htarget, hdirectory]
  simp only [hmake, LocalFiles.createAt, show (linkAttributes turn).type = .symbolicLink from rfl,
    LocalFiles.clear, hfree, LocalFiles.andThen, makeLink]
  rw [if_neg (by cases turn <;> decide), if_neg (by cases turn <;> decide), hplace]
  rfl

/-- The link is followed. -/
theorem create_behind (turn : Turn) : LocalFiles.create ⟨linkedTree turn, "/out"⟩ behindAttributes
    = (⟨behindTree turn, "/out"⟩, .ok (.file behindFile)) := by
  have htarget : LocalFiles.target? "/out" "d/x" = some "/out/d/x" := by decide +kernel
  have hdirectory : LocalFiles.directoryOf "/out" "d/x" = "/out/d" := by decide +kernel
  have hpath : Path.ofString "/out/d/x" = ⟨true, ["out", "d", "x"], false⟩ := by decide +kernel
  have hmake : (linkedTree turn).makeAll "/out/d" = (linkedTree turn, .ok ()) :=
    makeAll_of_leadsTo (leadsTo_linkedTree turn) (by cases turn <;> rfl) (by decide)
  have hplace : (linkedTree turn).locate true "/out/d/x" false
      = .ok (.entry turn.base "x" none) := by
    rw [locate, if_neg (by decide), if_neg (by decide), hpath]
    change (linkedTree turn).walk true maxLinks root ["out", "d", "x"] = _
    rw [walk_linkedTree, walk_cons]
    cases turn <;> rfl
  rw [LocalFiles.create, show behindAttributes.name = "d/x" from rfl, htarget, hdirectory]
  simp only [hmake]
  rw [LocalFiles.createAt_regular (by decide), openEmpty, hplace, hpath]
  rfl

def entryRecord (fileIndex : Int32) (number type : UInt8) (name link : Bytes) : Record :=
  ⟨fileIndex, ⟨1⟩, [number, 32, type, 32] ++ name ++ [0] ++
    [65, 32, 65, 32, 65, 32, 65, 32, 65, 32, 65, 32, 65, 32, 65, 0] ++ link ++ [0, 0], {}, 0⟩

def linkRecord : Turn → Record
  | .upwards => entryRecord 1 49 52 [100] [46, 46]
  | .inwards => entryRecord 1 49 52 [100] [46]

def behindRecord : Record := entryRecord 2 50 51 [100, 47, 120] []

theorem ofRecord_linkRecord (turn : Turn) :
    Attributes.ofRecord (linkRecord turn) = .ok (linkAttributes turn) := by
  cases turn <;> decide +kernel

theorem ofRecord_behindRecord : Attributes.ofRecord behindRecord = .ok behindAttributes := by
  decide +kernel

def linkedBlock (turn : Turn) : Bytes :=
  clearBlock 0 [wholePiece (linkRecord turn), wholePiece behindRecord]

theorem readAll_linkedBlock (turn : Turn) :
    ∃ s, ({ source := MemoryVolume.ofBlocks "volume" [linkedBlock turn] } :
      VolumeReader MemoryVolume).readAll
        = ([.record (linkRecord turn), .record behindRecord], s, .endOfData) := by
  have hblock (source : MemoryVolume) :
      ({ source } : VolumeReader MemoryVolume).receive ⟨0, linkedBlock turn⟩
        = ({ source, assembler := { records := 2 }, stats := { blocks := 1 } },
          [.record (linkRecord turn), .record behindRecord]) := by
    cases turn with
    | upwards =>
      exact VolumeReader.receive_clearBlock rfl (by decide) (by decide +kernel) (by decide +kernel)
        [linkRecord .upwards, behindRecord] rfl 0
    | inwards =>
      exact VolumeReader.receive_clearBlock rfl (by decide) (by decide +kernel) (by decide +kernel)
        [linkRecord .inwards, behindRecord] rfl 0
  obtain ⟨s, hread, -⟩ := VolumeReader.readAll_oneBlock "volume" hblock
  exact ⟨s, hread⟩

/-- An entry is created for the attributes of a record, if no file is open. -/
theorem visit_attributes {φ η : Type} [FileCreator φ η] {j : State φ η} {r : Record}
    {a : Attributes} {d : Decoder} {creator : φ} {x : Disposition η} (hl : r.isLabel = false)
    (hk : r.tag.isAttributes = true) (ho : j.work.opened = none)
    (hd : j.work.decoder.decode r = (d, .ok (.attributes a))) (ha : a.type ≠ .deleted)
    (hc : FileCreator.create j.work.creator a = (creator, .ok x)) :
    ∃ k, Job.visit false {} (handle {} {}) j (.record r) = (k, none) ∧
      k.work = ⟨creator, d, (FileCreator.opened? (.ok x)).map fun f => ⟨f, a, 0⟩⟩ := by
  have haccepts : ({} : Selection.PathFilter).accepts a.name = true := rfl
  simp only [Job.visit, hl, Bool.false_eq_true, if_false, handle, hk, Bool.true_or, if_true, close,
    ho, decode, hd, perform, openFile, haccepts, hc, ha, Bool.not_true]
  cases x
  all_goals exact ⟨_, rfl, rfl⟩

def linkedRun {φ : Type} (turn : Turn) (creator : φ) [FileCreator φ LocalFile] :
    Outcome MemoryVolume φ :=
  run {} {} {} (Decoder.create {} ({} : ChunkStore).rehydrate) none creator
    (MemoryVolume.ofBlocks "volume" [linkedBlock turn])

theorem creator_linkedRun (turn : Turn) :
    (linkedRun turn ({ creator := ⟨vacantTree, "/out"⟩ } : Traced LocalFiles LocalFile)).creator
      = ⟨⟨behindTree turn, "/out"⟩, [(⟨linkedTree turn, "/out"⟩, none),
        (⟨behindTree turn, "/out"⟩, some behindFile), (⟨behindTree turn, "/out"⟩, none)]⟩ := by
  obtain ⟨s, hread⟩ := readAll_linkedBlock turn
  obtain ⟨d, hlink, hready⟩ := (Decoder.isReady_create {} {} {}).decode_attributes
    (by cases turn <;> rfl) (by cases turn <;> rfl) (ofRecord_linkRecord turn)
  obtain ⟨e, hbehind, -⟩ := hready.decode_attributes rfl rfl ofRecord_behindRecord
  have hcreated : FileCreator.create (⟨vacantTree, "/out"⟩ : LocalFiles) (linkAttributes turn)
      = (⟨linkedTree turn, "/out"⟩, .ok (.created : Disposition LocalFile)) := create_link turn
  obtain ⟨j, hj, hjwork⟩ := visit_attributes (φ := Traced LocalFiles LocalFile)
    (j := ⟨⟨⟨⟨vacantTree, "/out"⟩, []⟩, .create {} ({} : ChunkStore).rehydrate, none⟩, {}, 0⟩)
    (by cases turn <;> rfl) (by cases turn <;> rfl) rfl hlink (by cases turn <;> decide)
    (Traced.create_eq hcreated)
  obtain ⟨k, hk, hkwork⟩ := visit_attributes (j := j) (r := behindRecord) (by decide) rfl
    (by rw [hjwork]; rfl) (by rw [hjwork]; exact hbehind) (by decide)
    (by rw [hjwork]; exact Traced.create_eq (create_behind turn))
  rw [linkedRun, creator_run_of_readAll rfl hread (j := k) (by simp only [showAll, hj, hk])]
  simp only [close, hkwork, FileCreator.opened?, Option.map_some]
  cases turn <;> rfl

/-- A file is made through a link that stays inside. -/
theorem within_inwardsRun :
    let traced := linkedRun .inwards
      ({ creator := ⟨vacantTree, "/out"⟩ } : Traced LocalFiles LocalFile)
    vacantTree.LeadsTo "/out" 1 ∧ vacantTree.directory? 1 = some (root, []) ∧
      traced.creator.steps.take 2 = [(⟨linkedTree .inwards, "/out"⟩, none),
        (⟨behindTree .inwards, "/out"⟩, some behindFile)] ∧
      LinksStay vacantTree 1 (linkedTree .inwards) ∧
      LocalFiles.Within vacantTree 1 "/out" ⟨behindTree .inwards, "/out"⟩ (some behindFile) := by
  intro traced
  have hsteps := congrArg Traced.steps (creator_linkedRun .inwards)
  obtain ⟨-, -, hwithin, -⟩ := within_run leadsTo_vacantTree rfl {} {} {}
    (Decoder.create {} ({} : ChunkStore).rehydrate) none
    (MemoryVolume.ofBlocks "volume" [linkedBlock .inwards])
  refine ⟨leadsTo_vacantTree, rfl, congrArg (List.take 2) hsteps, linksStay_inwards, ?_⟩
  refine hwithin [(⟨linkedTree .inwards, "/out"⟩, none)] _ _ hsteps fun p hp => ?_
  rw [List.mem_singleton.mp hp]
  exact linksStay_inwards

/-- The file behind a link that leads out is made outside. -/
theorem not_confined_upwardsRun :
    let c := (linkedRun .upwards ({ tree := vacantTree, root := "/out" } : LocalFiles)).creator
    vacantTree.LeadsTo "/out" 1 ∧ vacantTree.directory? 1 = some (root, []) ∧
      c.tree.directory? root = some (root, [("x", behindFile.node), ("out", 1)]) ∧
      ¬Confined vacantTree 1 c.tree := by
  intro c
  have hplain := run_map Traced.untraced {} {} {} (Decoder.create {} ({} : ChunkStore).rehydrate)
    none ({ creator := ⟨vacantTree, "/out"⟩ } : Traced LocalFiles LocalFile)
    (MemoryVolume.ofBlocks "volume" [linkedBlock .upwards])
  have hc : c = ⟨behindTree .upwards, "/out"⟩ :=
    (congrArg Outcome.creator hplain).trans (congrArg Traced.creator (creator_linkedRun .upwards))
  rw [hc]
  refine ⟨leadsTo_vacantTree, rfl, rfl, fun h => ?_⟩
  have houter : ¬vacantTree.IsInner 1 root := by
    rintro (heq | hge)
    · exact absurd heq (by decide)
    · exact absurd hge (by decide)
  exact absurd (h.outer houter) (by decide)

end Linked

end Extraction
end BackupVolume
