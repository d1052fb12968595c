import BackupVolume.Proofs.Volume.Findings

/-! # What holds as long as a volume is read

A property of every record that is found follows from what one step keeps: taking a record from a
block, and taking a block from the source. Neither the order of the blocks nor failures matter.
-/
namespace BackupVolume

/-- What is known of the source, of the assembler and of the current block is kept by every step of
reading, and `found` follows for the records that come out. -/
structure VolumeReader.Keeps {σ : Type} [BlockSource σ] (verify : Bool) (key : Option VolumeKey)
    (source : σ → Prop) (assembler : Assembler → Prop) (block : LoadedBlock → Prop)
    (found : Record → Prop) : Prop where
  discard {a : Assembler} : assembler a → assembler a.discard
  unpack {a c : Assembler} {b d : LoadedBlock} {x : Except RecordError Unpacked} :
    assembler a → block b → a.unpack b = (c, d, x) →
      assembler c ∧ block d ∧ ∀ r, x = .ok (.record r) → found r
  read {s t : σ} {x : Except IoFault (Option RawBlock)} :
    source s → BlockSource.read s = (t, x) → source t
  load {s t : σ} {raw : RawBlock} {b : LoadedBlock} :
    source s → BlockSource.read s = (t, .ok (some raw)) → LoadedBlock.load verify key raw = .ok b →
      block b

namespace VolumeReader.Keeps
variable {σ : Type} [BlockSource σ] {verify : Bool} {key : Option VolumeKey} {source : σ → Prop}
  {assembler : Assembler → Prop} {block : LoadedBlock → Prop} {found : Record → Prop}
  {r s : VolumeReader σ}

structure Reader (verify : Bool) (key : Option VolumeKey) (source : σ → Prop)
    (assembler : Assembler → Prop) (block : LoadedBlock → Prop) (r : VolumeReader σ) : Prop where
  verify : r.verify = verify
  key : r.key = key
  source : source r.source
  assembler : assembler r.assembler
  current : ∀ b, r.current = some b → block b

theorem dropPending (k : Keeps verify key source assembler block found)
    (h : Reader verify key source assembler block r) :
    Reader verify key source assembler block r.dropPending := by
  rw [VolumeReader.dropPending]
  split
  · exact ⟨h.verify, h.key, h.source, k.discard h.assembler, h.current⟩
  · exact h

theorem drain (k : Keeps verify key source assembler block found)
    (h : Reader verify key source assembler block r) {x : Option (Except Failure Record)}
    (hd : r.drain = (s, x)) :
    Reader verify key source assembler block s ∧ ∀ record, x = some (.ok record) → found record := by
  rw [VolumeReader.drain] at hd
  split at hd
  · cases hd
    exact ⟨h, by rintro record ⟨⟩⟩
  · next b current =>
    have hb := h.current b current
    split at hd
    · next unpacked =>
      cases hd
      obtain ⟨ha, hd, hfound⟩ := k.unpack h.assembler hb unpacked
      refine ⟨⟨h.verify, h.key, h.source, ha, ?_⟩, ?_⟩
      · rintro d ⟨rfl⟩
        exact hd
      · rintro record ⟨rfl⟩
        exact hfound _ rfl
    · next unpacked =>
      cases hd
      obtain ⟨ha, -, -⟩ := k.unpack h.assembler hb unpacked
      exact ⟨⟨h.verify, h.key, h.source, ha, by rintro d ⟨⟩⟩, by rintro record ⟨⟩⟩
    · next unpacked =>
      cases hd
      obtain ⟨ha, hd, -⟩ := k.unpack h.assembler hb unpacked
      refine ⟨⟨h.verify, h.key, h.source, ha, ?_⟩, by rintro record ⟨⟩⟩
      rintro d ⟨rfl⟩
      exact hd

theorem fetch (k : Keeps verify key source assembler block found)
    (h : Reader verify key source assembler block r) {f : Fetched} (hf : r.fetch = (s, f)) :
    Reader verify key source assembler block s := by
  rw [VolumeReader.fetch] at hf
  split at hf
  · next read =>
    cases hf
    exact ⟨h.verify, h.key, k.read h.source read, h.assembler, h.current⟩
  · next read =>
    cases hf
    exact k.dropPending ⟨h.verify, h.key, k.read h.source read, h.assembler, h.current⟩
  · next read =>
    simp only at hf
    split at hf
    · next loaded =>
      cases hf
      refine ⟨h.verify, h.key, k.read h.source read, h.assembler, ?_⟩
      rintro b ⟨rfl⟩
      rw [h.verify, h.key] at loaded
      exact k.load h.source read loaded
    · cases hf
      exact k.dropPending ⟨h.verify, h.key, k.read h.source read, h.assembler, h.current⟩

theorem nextRecord (k : Keeps verify key source assembler block found)
    (h : Reader verify key source assembler block r) {x : Except Failure (Option Record)}
    (hn : r.nextRecord = (s, x)) :
    Reader verify key source assembler block s ∧
      ∀ record, x = .ok (some record) → found record := by
  fun_induction VolumeReader.nextRecord r with
  | case1 r t record drained =>
    cases hn
    obtain ⟨hreader, hfound⟩ := k.drain h drained
    refine ⟨hreader, ?_⟩
    rintro record ⟨rfl⟩
    exact hfound _ rfl
  | case2 r t e drained =>
    cases hn
    exact ⟨(k.drain h drained).1, by rintro record ⟨⟩⟩
  | case3 r t drained u fetched =>
    cases hn
    exact ⟨k.fetch (k.drain h drained).1 fetched, by rintro record ⟨⟩⟩
  | case4 r t drained u e fetched =>
    cases hn
    exact ⟨k.fetch (k.drain h drained).1 fetched, by rintro record ⟨⟩⟩
  | case5 r t drained u fetched ih => exact ih (k.fetch (k.drain h drained).1 fetched) hn

/-- What follows for one record holds of all that a volume shows. -/
theorem readAll (k : Keeps verify key source assembler block found)
    (h : Reader verify key source assembler block r) {fs : List Finding} {e : Ending Empty}
    (hr : r.readAll = (fs, s, e)) : ∀ record ∈ Finding.records fs, found record := by
  have hgo (acc : List Finding) (hacc : ∀ record ∈ Finding.records acc, found record)
      (r : VolumeReader σ) (h : Reader verify key source assembler block r)
      (hr : r.traverse keep acc = (fs, s, e)) : ∀ record ∈ Finding.records fs, found record := by
    fun_induction traverse keep acc r with
    | case1 acc r v next =>
      cases hr
      exact hacc
    | case2 acc r v x next w reason => exact reason.elim
    | case3 acc r v x next w shown ih =>
      obtain ⟨hreader, hfound⟩ := k.nextRecord h next
      cases shown
      refine ih ?_ hreader hr
      intro record hmem
      rw [Finding.records, List.filterMap_append] at hmem
      rcases List.mem_append.mp hmem with hmem | hmem
      · exact hacc record hmem
      · simp only [List.filterMap_cons, List.filterMap_nil, List.mem_singleton] at hmem
        exact hmem ▸ hfound x rfl
    | case4 acc r v x next scope w reason => exact reason.elim
    | case5 acc r v x next scope w shown ih =>
      obtain ⟨hreader, -⟩ := k.nextRecord h next
      cases shown
      refine ih ?_ hreader hr
      intro record hmem
      rw [Finding.records, List.filterMap_append] at hmem
      rcases List.mem_append.mp hmem with hmem | hmem
      · exact hacc record hmem
      · simp at hmem
    | case6 acc r v x next scope =>
      cases hr
      exact hacc
  exact hgo [] (by simp [Finding.records]) r h hr

end VolumeReader.Keeps
end BackupVolume
