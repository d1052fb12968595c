import BackupVolume.Proofs.Restore.LocalFiles
import BackupVolume.Proofs.Restore.Stored
import BackupVolume.Restore.Extraction

/-! # Restoring step by step

Between two records every file whose records have passed has its content, and the one that is open
stands where the next chunk belongs. A chunk takes the open file one step on; the description of the
next file finishes it, and so does the end of the job.
-/
namespace BackupVolume
open Compression

structure LocalFiles.Has (c : LocalFiles) (f : StoredFile) (h : LocalFile) : Prop where
  path : target? c.root f.attributes.name = some h.path
  found : c.tree.find true h.path = .ok h.node
  content : c.tree.content? h.node = some f.content.toArray

structure LocalFiles.Refilled (c d : LocalFiles) (node : Nat) : Prop where
  root : d.root = c.root
  outline : d.tree.outline = c.tree.outline
  grows : FileTree.Grows node c.tree d.tree

theorem LocalFiles.Has.keep {c d : LocalFiles} {f : StoredFile} {h : LocalFile} {node : Nat}
    (hf : c.Has f h) (hr : d.root = c.root) (hg : FileTree.Grows node c.tree d.tree)
    (hn : h.node ≠ node) : d.Has f h :=
  ⟨hr ▸ hf.path, hg.find hf.found, hg.content hn hf.content⟩

namespace Extraction

structure Filling (c : LocalFiles) (f : StoredFile) (o : OpenFile LocalFile)
    (rest : List StoredChunk) : Prop where
  attributes : o.attributes = f.attributes
  position : o.address.toNat = o.handle.position
  path : LocalFiles.target? c.root f.attributes.name = some o.handle.path
  found : c.tree.find true o.handle.path = .ok o.handle.node
  stands : ∃ written, c.tree.content? o.handle.node = some written.toArray ∧
    f.Stands written o.handle.position rest

section Step
variable {codecs : Codecs} {cap : Nat} {j : State LocalFiles LocalFile} {f : StoredFile}
  {o : OpenFile LocalFile}

def placedAt (o : OpenFile LocalFile) (address : Nat) : OpenFile LocalFile :=
  { o with handle := { o.handle with position := address }, address := address.toUInt64 }

/-- Moving succeeds, and nothing but the place of the open file is another one. -/
theorem moveTo_address {c : StoredChunk} (hp : o.address.toNat = o.handle.position)
    (hgap : c.tag.hasOffsets = false → c.gap = 0)
    (hm : o.handle.position + c.gap ≤ FileTree.maxFileLength) :
    ∃ k, moveTo j o (c.address? (o.handle.position + c.gap))
        = (k, .ok (placedAt o (o.handle.position + c.gap))) ∧
      k.work.creator = j.work.creator ∧ k.work.decoder = j.work.decoder ∧
      k.counts.errors = j.counts.errors ∧ k.counts.records = j.counts.records := by
  have hstay : placedAt o o.handle.position = o := by
    obtain ⟨⟨node, path, position⟩, attributes, address⟩ := o
    obtain rfl : address.toNat = position := hp
    exact congrArg (OpenFile.mk _ attributes) UInt64.ofNat_toNat
  unfold StoredChunk.address?
  by_cases ho : c.tag.hasOffsets = true
  · rw [if_pos ho]
    unfold moveTo
    simp only
    rw [hp]
    by_cases hsame : o.handle.position + c.gap = o.handle.position
    · rw [if_pos hsame, hsame, hstay]
      exact ⟨j, rfl, rfl, rfl, rfl, rfl⟩
    · have hseek : FileCreator.seek j.work.creator o.handle (o.handle.position + c.gap)
          = (j.work.creator, .ok { o.handle with position := o.handle.position + c.gap }) := by
        simp only [FileCreator.seek, LocalFiles.seek]
        rw [if_neg (by omega)]
      rw [if_neg hsame, hseek]
      exact ⟨_, rfl, rfl, rfl, rfl, rfl⟩
  · have hzero := hgap (by simpa using ho)
    rw [if_neg ho, hzero, Nat.add_zero, hstay]
    exact ⟨j, rfl, rfl, rfl, rfl, rfl⟩

theorem Filling.write {c : StoredChunk} {rest : List StoredChunk} (hf : f.IsSound codecs cap)
    (hc : c.IsSound codecs cap) (ho : j.work.opened = some o)
    (h : Filling j.work.creator f o (c :: rest)) :
    ∃ k p, Extraction.write j (c.address? (o.handle.position + c.gap)) c.data = (k, .ok ()) ∧
      k.work.decoder = j.work.decoder ∧ k.work.opened = some p ∧
      p.handle.node = o.handle.node ∧
      p.handle.position = o.handle.position + c.gap + c.data.length ∧
      Filling k.work.creator f p rest ∧
      LocalFiles.Refilled j.work.creator k.work.creator o.handle.node ∧
      k.counts.errors = j.counts.errors ∧ k.counts.records = j.counts.records := by
  obtain ⟨written, hwritten, hstands⟩ := h.stands
  have hfits := Nat.le_trans hstands.next_le hf.length
  obtain ⟨k, hmove, hcreator, hdecoder, herrors, hrecords⟩ := moveTo_address
    (j := { j with counts := { j.counts with bytes := j.counts.bytes + c.data.length } })
    h.position hc.gap (by omega)
  rw [← hcreator] at hwritten
  obtain ⟨t, hwrite, hfilled⟩ := LocalFiles.write_behind (c := k.work.creator)
    (f := (placedAt o (o.handle.position + c.gap)).handle) hwritten
    (Nat.le_trans hstands.behind (Nat.le_add_right _ _)) hfits
  have hroot : k.work.creator.root = j.work.creator.root := by rw [hcreator]
  rw [hcreator] at hfilled
  refine ⟨{ k with work := { k.work with
      creator := { k.work.creator with tree := t }
      opened := some (placedAt o (o.handle.position + c.gap + c.data.length)) } },
    placedAt o (o.handle.position + c.gap + c.data.length), ?_, hdecoder, rfl, rfl, rfl, ?_, ?_,
    herrors, hrecords⟩
  · have haddress : (o.handle.position + c.gap + c.data.length).toUInt64
        = (o.handle.position + c.gap).toUInt64 + c.data.length.toUInt64 := UInt64.ofNat_add _ _
    unfold Extraction.write
    simp only [ho, hmove, FileCreator.write, hwrite]
    simp only [placedAt, haddress]
  · have hpath := h.path
    rw [← hroot] at hpath
    refine ⟨h.attributes, ?_, hpath, hfilled.grows.find h.found, _, hfilled.content, hstands.next⟩
    -- The end of the data is within the longest file, and so within 64 bits.
    refine UInt64.toNat_ofNat_of_lt' (Nat.lt_of_le_of_lt hfits ?_)
    decide
  · exact ⟨hroot, hfilled.outline, hfilled.grows⟩

/-- A file whose chunks are all written gets its content when it is closed. -/
theorem Filling.close (hf : f.IsSound codecs cap) (ho : j.work.opened = some o)
    (h : Filling j.work.creator f o []) :
    ∃ k, Extraction.close j = (k, .ok ()) ∧ k.work.decoder = j.work.decoder ∧
      k.work.opened = none ∧ k.work.creator.Has f o.handle ∧
      LocalFiles.Refilled j.work.creator k.work.creator o.handle.node ∧
      k.counts.errors = j.counts.errors ∧ k.counts.records = j.counts.records := by
  obtain ⟨written, hwritten, hstands⟩ := h.stands
  have hsize : f.size ≤ FileTree.maxFileLength := by
    have hends := hf.ends
    have hlength := hf.length
    omega
  obtain ⟨t, hfinish, hfilled⟩ := LocalFiles.finish_padded hwritten h.found hsize
  have hcontent := hfilled.content
  have hwhole : FileTree.padded written f.attributes.stat.size.toInt.toNat = f.content :=
    hstands.padded_size hf
  rw [hwhole] at hcontent
  rw [← h.attributes] at hfinish
  unfold Extraction.close
  simp only [ho, FileCreator.finish, hfinish]
  exact ⟨_, rfl, rfl, rfl, ⟨h.path, hfilled.grows.find h.found, hcontent⟩,
    ⟨rfl, hfilled.outline, hfilled.grows⟩, rfl, rfl⟩

end Step

/-- These files are restored, the file of each node in `busy` is being filled, and these files are
still to be created. -/
structure Progress (codecs : Codecs) (cap : Nat) (store : ChunkStore)
    (filter : Selection.PathFilter) (w : Extraction LocalFiles LocalFile)
    (done : List (StoredFile × LocalFile)) (busy : List Nat) (todo : List StoredFile) : Prop where
  ready : w.decoder.IsReady codecs cap store
  restored : ∀ p ∈ done, w.creator.Has p.1 p.2
  sound : ∀ f ∈ todo, f.IsSound codecs cap ∧ filter.accepts f.attributes.name = true
  ahead : ∃ (dry : LocalFiles) (handles : List LocalFile), LocalFiles.SameShape w.creator dry ∧
    LocalFiles.OpensAll dry (todo.map StoredFile.attributes) handles ∧
    (done.map (fun p => p.2.node) ++ (busy ++ handles.map LocalFile.node)).Nodup

section Job
variable {codecs : Codecs} {cap : Nat} {store : ChunkStore} {filter : Selection.PathFilter}
  {done : List (StoredFile × LocalFile)} {todo : List StoredFile}

theorem ne_of_nodup {nodes : List Nat} {node : Nat}
    (h : (done.map (fun p => p.2.node) ++ (node :: nodes)).Nodup) {p : StoredFile × LocalFile}
    (hp : p ∈ done) : p.2.node ≠ node :=
  (List.nodup_append.mp h).2.2 _ (List.mem_map.mpr ⟨p, hp, rfl⟩) _ (by simp)

/-- The file that is being filled changes, and no other. -/
theorem Progress.refill {v w : Extraction LocalFiles LocalFile} {node : Nat}
    (h : Progress codecs cap store filter v done [node] todo)
    (hw : w.decoder.IsReady codecs cap store)
    (hr : LocalFiles.Refilled v.creator w.creator node) :
    Progress codecs cap store filter w done [node] todo := by
  obtain ⟨dry, handles, hshape, hopens, hdistinct⟩ := h.ahead
  refine ⟨hw, ?_, h.sound, dry, handles, ?_, hopens, hdistinct⟩
  · intro p hp
    exact (h.restored p hp).keep hr.root hr.grows (ne_of_nodup hdistinct hp)
  · exact ⟨hr.root.trans hshape.root, hr.outline.trans hshape.outline⟩

theorem Progress.close {j : State LocalFiles LocalFile} {f : StoredFile} {o : OpenFile LocalFile}
    (h : Progress codecs cap store filter j.work done [o.handle.node] todo)
    (hf : f.IsSound codecs cap) (ho : j.work.opened = some o)
    (hfill : Filling j.work.creator f o []) :
    ∃ k, Extraction.close j = (k, .ok ()) ∧ k.work.opened = none ∧
      Progress codecs cap store filter k.work (done ++ [(f, o.handle)]) [] todo ∧
      k.counts.errors = j.counts.errors ∧ k.counts.records = j.counts.records := by
  obtain ⟨k, hclose, hdecoder, hopened, hhas, hrefilled, hcounts⟩ := hfill.close hf ho
  have hkept := h.refill (hdecoder ▸ h.ready) hrefilled
  obtain ⟨dry, handles, hshape, hopens, hdistinct⟩ := hkept.ahead
  refine ⟨k, hclose, hopened, ⟨hkept.ready, ?_, hkept.sound, dry, handles, hshape, hopens, ?_⟩,
    hcounts⟩
  · intro p hp
    rcases List.mem_append.mp hp with hp | hp
    · exact hkept.restored p hp
    · rw [List.mem_singleton.mp hp]
      exact hhas
  · rw [List.map_append, List.append_assoc]
    exact hdistinct

theorem Progress.openFile {o : JobOptions} (ho : o.dryRun = false)
    {j : State LocalFiles LocalFile} {f : StoredFile}
    (h : Progress codecs cap store filter j.work done [] (f :: todo)) :
    ∃ k p, Extraction.openFile o filter j f.attributes = k ∧ k.work.opened = some p ∧
      p.handle.position = 0 ∧ Filling k.work.creator f p f.chunks ∧
      Progress codecs cap store filter k.work done [p.handle.node] todo ∧
      k.counts.errors = j.counts.errors ∧ k.counts.records = j.counts.records := by
  obtain ⟨hsound, haccepted⟩ := h.sound f (by simp)
  obtain ⟨dry, handles, hshape, hopens, hdistinct⟩ := h.ahead
  cases handles with
  | nil => cases hopens
  | cons handle handles =>
    obtain ⟨c, next, hcreate, hcreated, hsame, hrest⟩ := hopens.step hshape hsound.regular
    have htype : f.attributes.type ≠ .deleted := by
      have hregular := hsound.regular
      intro hdeleted
      simp [Attributes.isRegular, hdeleted] at hregular
    unfold Extraction.openFile
    simp only [haccepted, Bool.not_true, Bool.false_eq_true, if_false, ho, htype,
      FileCreator.create, hcreate]
    refine ⟨_, _, rfl, rfl, hcreated.position,
      ⟨rfl, hcreated.position.symm, ?_, hcreated.found, [], ?_, hcreated.position ▸ f.stands_nil⟩,
      ⟨h.ready, ?_, ?_, next, handles, hsame, hrest, hdistinct⟩, rfl, rfl⟩
    · rw [← hcreated.path, ← hcreated.root]
      rfl
    · exact hcreated.empty
    · intro p hp
      exact (h.restored p hp).keep hcreated.root hcreated.grows (ne_of_nodup hdistinct hp)
    · exact fun g hg => h.sound g (by simp [hg])

end Job

end Extraction
end BackupVolume
