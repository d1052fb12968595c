import BackupVolume.Proofs.Restore.Progress

/-! # The records of stored files pass

While the records of stored files go by, the extraction is between two files or within one, and it
knows what is still to come. Every record takes it one step on, and when no record is left all files
are restored.
-/
namespace BackupVolume
open Compression

def Record.core (r : Record) : Int32 × StreamTag × Bytes := (r.fileIndex, r.tag, r.payload)

namespace Extraction

structure Awaits (store : ChunkStore) (rs : List Record) (plan : List (Record × Nat)) : Prop where
  records : rs.map Record.core = plan.map fun p => (ChunkStore.encoded p.1 p.2).core
  known : ∀ p ∈ plan, (∀ piece ∈ ChunkStore.piecesOf p.1 p.2, store.Knows piece) ∧
    p.1.payload.length < 2 ^ 32

theorem Awaits.cons {store : ChunkStore} {r : Record} {rs : List Record} {p : Record × Nat}
    {plan : List (Record × Nat)} (h : Awaits store (r :: rs) (p :: plan)) :
    r.core = (ChunkStore.encoded p.1 p.2).core ∧
      (∀ piece ∈ ChunkStore.piecesOf p.1 p.2, store.Knows piece) ∧ p.1.payload.length < 2 ^ 32 ∧
      Awaits store rs plan := by
  obtain ⟨hfirst, hrest⟩ := List.cons.inj h.records
  obtain ⟨hpieces, hshort⟩ := h.known p (by simp)
  exact ⟨hfirst, hpieces, hshort, hrest, fun q hq => h.known q (by simp [hq])⟩

theorem not_awaits_nil {store : ChunkStore} {r : Record} {rs : List Record} :
    ¬ Awaits store (r :: rs) [] := by
  intro h
  cases h.records

section Handle
variable {codecs : Codecs} {cap : Nat} {store : ChunkStore} {filter : Selection.PathFilter}
  {o : JobOptions} {j : State LocalFiles LocalFile} {r : Record} {f : StoredFile}
  {done : List (StoredFile × LocalFile)} {todo : List StoredFile}

theorem Progress.decode (ho : o.dryRun = false)
    (h : Progress codecs cap store filter j.work done [] (f :: todo)) {size : Nat}
    (hr : r.core = (ChunkStore.encoded f.description size).core) :
    ∃ k p, Extraction.decode o filter j r = (k, .ok ()) ∧ k.work.opened = some p ∧
      p.handle.position = 0 ∧ Filling k.work.creator f p f.chunks ∧
      Progress codecs cap store filter k.work done [p.handle.node] todo ∧
      k.counts.errors = j.counts.errors ∧ k.counts.records = j.counts.records := by
  obtain ⟨hsound, -⟩ := h.sound f (by simp)
  have hcore : r.core = (f.attributes.fileIndex, f.tag, f.payload) := by
    have hwhole : ¬ f.description.tag.isDedup = true := by
      rw [StoredFile.description, hsound.whole]
      exact Bool.false_ne_true
    rw [hr, ChunkStore.encoded, if_neg hwhole]
    rfl
  obtain ⟨hindex, htag, hpayload⟩ : r.fileIndex = f.attributes.fileIndex ∧ r.tag = f.tag ∧
      r.payload = f.payload := by simpa [Record.core] using hcore
  have hattributes : Attributes.ofRecord r = .ok f.attributes := by
    rw [Attributes.ofRecord, hpayload, hsound.decodes, hindex]
    simp [bind, Except.bind, pure, Except.pure]
  obtain ⟨d, hdecode, hready⟩ := h.ready.decode_attributes (htag ▸ hsound.kind)
    (htag ▸ hsound.whole) hattributes
  have hnext : Progress codecs cap store filter { j.work with decoder := d } done [] (f :: todo) :=
    ⟨hready, h.restored, h.sound, h.ahead⟩
  obtain ⟨k, p, hopen, hrest⟩ := Progress.openFile ho (j := { j with
    work := { j.work with decoder := d } }) hnext
  refine ⟨k, p, ?_, hrest⟩
  simp only [Extraction.decode, hdecode, perform, hopen]

theorem handle_attributes (hk : r.tag.isAttributes = true) {k : State LocalFiles LocalFile}
    (hc : close j = (k, .ok ())) : handle o filter j r = Extraction.decode o filter k r := by
  unfold handle
  rw [hk, Bool.true_or, if_pos rfl, hc]

theorem Filling.handle {c : StoredChunk} {rest : List StoredChunk} {p : OpenFile LocalFile}
    (hf : f.IsSound codecs cap) (hc : c.IsSound codecs cap) (hp : j.work.opened = some p)
    (hfill : Filling j.work.creator f p (c :: rest))
    (h : Progress codecs cap store filter j.work done [p.handle.node] todo) {fileIndex : Int32}
    (hr : r.core = (ChunkStore.encoded (c.record codecs fileIndex (p.handle.position + c.gap))
      c.pieceSize).core)
    (hk : ∀ piece ∈ ChunkStore.piecesOf (c.record codecs fileIndex (p.handle.position + c.gap)) c.pieceSize,
      store.Knows piece)
    (hl : (c.payload codecs (p.handle.position + c.gap)).length < 2 ^ 32) :
    ∃ k q, Extraction.handle o filter j r = (k, .ok ()) ∧ k.work.opened = some q ∧
      q.handle.position = p.handle.position + c.gap + c.data.length ∧ Filling k.work.creator f q rest ∧
      Progress codecs cap store filter k.work done [q.handle.node] todo ∧
      k.counts.errors = j.counts.errors ∧ k.counts.records = j.counts.records := by
  obtain ⟨written, -, hstands⟩ := hfill.stands
  have hfits := Nat.le_trans hstands.next_le hf.length
  have haddress : p.handle.position + c.gap < 2 ^ 64 := by
    simp only [FileTree.maxFileLength] at hfits
    omega
  obtain ⟨htag, hpayload⟩ : r.tag = c.tag ∧ r.payload = (ChunkStore.encoded
      (c.record codecs fileIndex (p.handle.position + c.gap)) c.pieceSize).payload := by
    have hsame : (ChunkStore.encoded (c.record codecs fileIndex (p.handle.position + c.gap))
        c.pieceSize).tag = c.tag := by
      unfold ChunkStore.encoded
      split <;> rfl
    simp only [Record.core, Prod.mk.injEq, hsame] at hr
    exact hr.2
  obtain ⟨d, hdecode, hready⟩ := hc.decode h.ready haddress hk hl htag hpayload
  obtain ⟨k, q, hwrite, hdecoder, hopened, hnode, hnext, hfilling, hrefilled, hcounts⟩ :=
    hfill.write (j := { j with work := { j.work with decoder := d } }) hf hc hp
  have hkept := h.refill (w := k.work) (by rw [hdecoder]; exact hready) hrefilled
  rw [← hnode] at hkept
  refine ⟨k, q, ?_, hopened, hnext, hfilling, hkept, hcounts⟩
  unfold Extraction.handle
  rw [htag, StreamTag.isAttributes_of_isFileData hc.kind, if_neg Bool.false_ne_true,
    if_neg (by simp [hp])]
  simp only [Extraction.decode, hdecode, perform, hwrite]

end Handle

inductive Underway (codecs : Codecs) (cap : Nat) (store : ChunkStore)
    (filter : Selection.PathFilter) (files : List StoredFile) (w : Extraction LocalFiles LocalFile)
    (rs : List Record) : Prop where
  | between {done : List (StoredFile × LocalFile)} {todo : List StoredFile}
      (all : done.map Prod.fst ++ todo = files) (opened : w.opened = none)
      (progress : Progress codecs cap store filter w done [] todo)
      (awaits : Awaits store rs (StoredFile.plan codecs todo))
  | within {done : List (StoredFile × LocalFile)} {todo : List StoredFile} {f : StoredFile}
      {p : OpenFile LocalFile} {rest : List StoredChunk} (all : done.map Prod.fst ++ f :: todo = files)
      (opened : w.opened = some p) (sound : f.IsSound codecs cap) (chunks : ∀ c ∈ rest, c ∈ f.chunks)
      (filling : Filling w.creator f p rest)
      (progress : Progress codecs cap store filter w done [p.handle.node] todo)
      (awaits : Awaits store rs (StoredChunk.records codecs f.attributes.fileIndex p.handle.position rest
        ++ StoredFile.plan codecs todo))

section Underway
variable {codecs : Codecs} {cap : Nat} {store : ChunkStore} {filter : Selection.PathFilter}
  {o : JobOptions} {files : List StoredFile} {j : State LocalFiles LocalFile} {r : Record}
  {rs : List Record}

/-- When a file has been closed, the description of the next one opens it. -/
theorem Underway.describe (ho : o.dryRun = false) {done : List (StoredFile × LocalFile)}
    {todo : List StoredFile} {k : State LocalFiles LocalFile} (hc : close j = (k, .ok ()))
    (all : done.map Prod.fst ++ todo = files)
    (progress : Progress codecs cap store filter k.work done [] todo)
    (awaits : Awaits store (r :: rs) (StoredFile.plan codecs todo)) :
    ∃ l, handle o filter j r = (l, .ok ()) ∧ Underway codecs cap store filter files l.work rs ∧
      l.counts.errors = k.counts.errors ∧ l.counts.records = k.counts.records := by
  cases todo with
  | nil => exact absurd awaits not_awaits_nil
  | cons f todo =>
    obtain ⟨hsound, -⟩ := progress.sound f (by simp)
    obtain ⟨hcore, -, -, hrest⟩ := awaits.cons
    obtain ⟨l, p, hdecode, hopened, hstart, hfilling, hprogress, hcounts⟩ :=
      progress.decode ho hcore
    have htag : r.tag = f.tag := by
      simp only [Record.core, Prod.mk.injEq] at hcore
      rw [hcore.2.1]
      unfold ChunkStore.encoded
      split <;> rfl
    rw [← hstart] at hrest
    refine ⟨l, ?_, .within all hopened hsound (fun c hc => hc) hfilling hprogress hrest, hcounts⟩
    rw [handle_attributes (htag ▸ hsound.kind) hc, hdecode]

/-- Every record takes the extraction one step on. -/
theorem Underway.step (ho : o.dryRun = false)
    (h : Underway codecs cap store filter files j.work (r :: rs)) :
    ∃ k, handle o filter j r = (k, .ok ()) ∧ Underway codecs cap store filter files k.work rs ∧
      k.counts.errors = j.counts.errors ∧ k.counts.records = j.counts.records := by
  cases h with
  | between all opened progress awaits =>
    have hclose : close j = (j, .ok ()) := by rw [close, opened]
    exact Underway.describe ho hclose all progress awaits
  | @within done todo f p rest all opened sound chunks filling progress awaits =>
    cases rest with
    | nil =>
      obtain ⟨k, hclose, -, hclosed, herrors, hrecords⟩ := progress.close sound opened filling
      have hall : (done ++ [(f, p.handle)]).map Prod.fst ++ todo = files := by simpa using all
      rw [← herrors, ← hrecords]
      exact Underway.describe ho hclose hall hclosed awaits
    | cons c rest =>
      obtain ⟨hcore, hpieces, hshort, hrest⟩ := awaits.cons
      obtain ⟨k, q, hhandle, hopened, hnext, hfilling, hprogress, hcounts⟩ :=
        filling.handle sound (sound.chunks c (chunks c (by simp))) opened progress hcore hpieces hshort
      rw [← hnext] at hrest
      exact ⟨k, hhandle, .within all hopened sound (fun d hd => chunks d (by simp [hd])) hfilling
        hprogress hrest, hcounts⟩

/-- When no record is left, closing leaves all files restored. -/
theorem Underway.finish (h : Underway codecs cap store filter files j.work []) :
    ∃ k, close j = (k, .ok ()) ∧ k.work.decoder.stats.errors = 0 ∧
      k.counts.errors = j.counts.errors ∧ ∀ f ∈ files, ∃ handle, k.work.creator.Has f handle := by
  have hend (plan : List (Record × Nat)) {todo : List StoredFile}
      (ha : Awaits store [] (plan ++ StoredFile.plan codecs todo)) :
      plan = [] ∧ todo = [] := by
    have hnil := List.map_eq_nil_iff.mp ha.records.symm
    obtain ⟨hplan, hrest⟩ := List.append_eq_nil_iff.mp hnil
    refine ⟨hplan, ?_⟩
    cases todo with
    | nil => rfl
    | cons f todo => cases hrest
  have hrestored {done : List (StoredFile × LocalFile)} {w : Extraction LocalFiles LocalFile}
      (hp : Progress codecs cap store filter w done [] []) (hall : done.map Prod.fst = files) :
      ∀ f ∈ files, ∃ handle, w.creator.Has f handle := by
    intro f hf
    rw [← hall] at hf
    obtain ⟨p, hmem, rfl⟩ := List.mem_map.mp hf
    exact ⟨p.2, hp.restored p hmem⟩
  cases h with
  | between all opened progress awaits =>
    obtain ⟨-, rfl⟩ := hend [] awaits
    rw [List.append_nil] at all
    refine ⟨j, by rw [close, opened], progress.ready.errors, rfl, hrestored progress all⟩
  | @within done todo f p rest all opened sound chunks filling progress awaits =>
    obtain ⟨hrest, rfl⟩ := hend _ awaits
    cases rest with
    | nil =>
      obtain ⟨k, hclose, -, hclosed, herrors, -⟩ := progress.close sound opened filling
      refine ⟨k, hclose, hclosed.ready.errors, herrors, hrestored hclosed ?_⟩
      simpa using all
    | cons c rest => cases hrest

end Underway
end Extraction
end BackupVolume
