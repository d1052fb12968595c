import BackupVolume.Proofs.FileTree.Filling
import BackupVolume.Restore.LocalFiles

/-! # Files are created and filled

Whether a regular file can be created, and which one it is, depends on the outline of the tree alone.
So files are created while others are filled as they would be one after another. Writing and
finishing a file do what they are asked for, as long as it does not get too long.
-/
namespace BackupVolume.LocalFiles

structure SameShape (c d : LocalFiles) : Prop where
  root : c.root = d.root
  outline : c.tree.outline = d.tree.outline

inductive OpensAll : LocalFiles → List Attributes → List LocalFile → Prop
  | nil (c : LocalFiles) : OpensAll c [] []
  | cons {c d : LocalFiles} {a : Attributes} {as : List Attributes} {f : LocalFile}
      {fs : List LocalFile} (create : c.create a = (d, .ok (.file f)))
      (empty : d.tree.content? f.node = some #[]) (rest : OpensAll d as fs) :
      OpensAll c (a :: as) (f :: fs)

theorem createAt_regular {a : Attributes} (ha : a.isRegular = true) (root : String) (t : FileTree)
    (path : String) :
    createAt root t path a
      = ((t.openEmpty path).1, (t.openEmpty path).2.map fun node => .file { node, path }) := by
  have htype : a.type = .regular ∨ a.type = .regularEmpty := by simpa [Attributes.isRegular] using ha
  unfold createAt
  rcases htype with h | h <;> rw [h]

theorem create_sameShape {c d : LocalFiles} (h : SameShape c d) {a : Attributes}
    (ha : a.isRegular = true) :
    SameShape (c.create a).1 (d.create a).1 ∧ (c.create a).2 = (d.create a).2 := by
  unfold create
  rw [h.root]
  rcases target? d.root a.name with _ | path
  · exact ⟨h, rfl⟩
  have hmake := FileTree.makeAll_congr h.outline (directoryOf d.root a.name)
  rcases hc : c.tree.makeAll (directoryOf d.root a.name) with ⟨t, x⟩
  rcases hd : d.tree.makeAll (directoryOf d.root a.name) with ⟨u, y⟩
  rw [hc, hd] at hmake
  obtain ⟨houtline, rfl⟩ := Prod.mk.inj hmake
  rcases x with e | ⟨⟨⟩⟩
  · exact ⟨⟨rfl, houtline⟩, rfl⟩
  · have hopen := FileTree.openEmpty_congr houtline path
    simp only [createAt_regular ha]
    rcases ht : t.openEmpty path with ⟨v, x⟩
    rcases hu : u.openEmpty path with ⟨w, y⟩
    rw [ht, hu] at hopen
    obtain ⟨houtline, rfl⟩ := Prod.mk.inj hopen
    exact ⟨⟨rfl, houtline⟩, rfl⟩

structure Created (c d : LocalFiles) (a : Attributes) (f : LocalFile) : Prop where
  root : d.root = c.root
  path : target? c.root a.name = some f.path
  position : f.position = 0
  grows : FileTree.Grows f.node c.tree d.tree
  empty : d.tree.content? f.node = some #[]
  found : d.tree.find true f.path = .ok f.node

theorem created_create {c d : LocalFiles} {a : Attributes} (ha : a.isRegular = true)
    {f : LocalFile} (h : c.create a = (d, .ok (.file f))) {content : Array UInt8}
    (hfile : d.tree.content? f.node = some content) : Created c d a f := by
  unfold create at h
  rcases ht : target? c.root a.name with _ | path
  · simp [ht] at h
  simp only [ht] at h
  have hmade := FileTree.grows_makeAll (t := c.tree) f.node (directoryOf c.root a.name)
  rcases hm : c.tree.makeAll (directoryOf c.root a.name) with ⟨t, e | ⟨⟨⟩⟩⟩
  · simp [hm] at h
  rw [hm] at hmade
  simp only [hm, createAt_regular ha] at h
  rcases ho : t.openEmpty path with ⟨u, e | node⟩
  · simp [ho, Except.map] at h
  simp only [ho, Except.map, Prod.mk.injEq, Except.ok.injEq, Disposition.file.injEq] at h
  obtain ⟨rfl, rfl⟩ := h
  have hopened := FileTree.opened_openEmpty ho hfile
  exact ⟨rfl, ht, rfl, hmade.trans hopened.grows, hopened.empty, hopened.found⟩

/-- Files that can be created one after another can be created in another tree of the same shape,
whatever the contents. -/
theorem OpensAll.step {c d : LocalFiles} {a : Attributes} {as : List Attributes} {f : LocalFile}
    {fs : List LocalFile} (h : OpensAll d (a :: as) (f :: fs)) (hs : SameShape c d)
    (ha : a.isRegular = true) :
    ∃ c' d', c.create a = (c', .ok (.file f)) ∧ Created c c' a f ∧ SameShape c' d' ∧
      OpensAll d' as fs := by
  cases h with
  | @cons _ d' _ _ _ _ hcreate hempty hrest =>
    obtain ⟨hshape, hresult⟩ := create_sameShape hs ha
    rw [hcreate] at hshape hresult
    rcases hc : c.create a with ⟨c', x⟩
    rw [hc] at hshape hresult
    subst hresult
    obtain ⟨content, hfile⟩ := FileTree.content?_congr hshape.outline hempty
    exact ⟨c', d', rfl, created_create ha hc hfile, hshape, hrest⟩

section Fill
variable {c : LocalFiles} {f : LocalFile} {written : Bytes}

/-- Data are written where the file has got to. -/
theorem write_overlaid (h : c.tree.content? f.node = some written.toArray) {data : Bytes}
    (hm : data = [] ∨ f.position + data.length ≤ FileTree.maxFileLength) :
    ∃ t, c.write f data
        = ({ c with tree := t }, .ok { f with position := f.position + data.length }) ∧
      FileTree.Filled c.tree t f.node (FileTree.overlaid written f.position data) := by
  obtain ⟨t, hwrite, hfilled⟩ := FileTree.filled_writeAt h hm
  unfold write
  rw [hwrite]
  exact ⟨t, rfl, hfilled⟩

theorem write_behind (h : c.tree.content? f.node = some written.toArray)
    (hp : written.length ≤ f.position) {data : Bytes}
    (hm : f.position + data.length ≤ FileTree.maxFileLength) :
    ∃ t, c.write f data
        = ({ c with tree := t }, .ok { f with position := f.position + data.length }) ∧
      FileTree.Filled c.tree t f.node
        (if data.isEmpty then written else FileTree.padded written f.position ++ data) := by
  rw [← FileTree.overlaid_behind hp]
  exact write_overlaid h (.inr hm)

theorem finish_padded (h : c.tree.content? f.node = some written.toArray)
    (hf : c.tree.find true f.path = .ok f.node) {a : Attributes}
    (hm : a.stat.size.toInt.toNat ≤ FileTree.maxFileLength) :
    ∃ t, c.finish f a = ({ c with tree := t }, .ok ()) ∧
      FileTree.Filled c.tree t f.node (FileTree.padded written a.stat.size.toInt.toNat) := by
  obtain ⟨t, hextend, hlong⟩ := FileTree.filled_extendTo h hm
  unfold finish
  rw [hextend]
  simp only [andThen, applyMode]
  by_cases hmode : permissions a.stat.mode = 0
  · rw [if_pos hmode]
    exact ⟨t, rfl, hlong⟩
  · obtain ⟨u, hset, hkept⟩ := FileTree.filled_setMode hlong.content (hlong.grows.find hf)
      (permissions a.stat.mode)
    rw [if_neg hmode, hset]
    exact ⟨u, rfl, hlong.trans hkept⟩

end Fill

end BackupVolume.LocalFiles
