import BackupVolume.Proofs.Chunk.References

/-! # Payloads are rebuilt as far as their chunks are there

However a store was filled, it keeps every chunk under its own digest. References to the pieces of a
payload therefore give the payload back where the store has all of them; elsewhere they give the
pieces before the first one that is missing, and nothing else.
-/
namespace BackupVolume.ChunkStore
variable {s : ChunkStore} {chunk : Bytes}

/-- The store is what any calls have made of it: chunks and payloads were added, or the store was
read from files. -/
inductive IsFilled : ChunkStore → Prop
  | empty : IsFilled {}
  | files (files : List (String × Bytes)) : IsFilled (ofFiles files)
  | insert {s : ChunkStore} (h : IsFilled s) (chunk : Bytes) : IsFilled (s.insert chunk)
  | insertAll {s : ChunkStore} (h : IsFilled s) (data : Bytes) (size : Nat) :
      IsFilled (s.insertAll data size).1

def IsKeyed (s : ChunkStore) : Prop := ∀ e ∈ s.entries, e.1 = digest e.2

def Holds (s : ChunkStore) (chunk : Bytes) : Prop := chunk ∈ s.entries.map Prod.snd

instance (s : ChunkStore) (chunk : Bytes) : Decidable (s.Holds chunk) :=
  inferInstanceAs (Decidable (chunk ∈ s.entries.map Prod.snd))

/-- None of these chunks has the digest of another chunk that the store holds. -/
def TellsApart (s : ChunkStore) (chunks : List Bytes) : Prop :=
  ∀ c ∈ chunks, ∀ d, s.Holds d → digest d = digest c → d = c

theorem IsKeyed.insert (h : s.IsKeyed) (chunk : Bytes) : (s.insert chunk).IsKeyed := by
  intro e he
  unfold ChunkStore.insert at he
  dsimp only at he
  split at he
  · exact h e he
  · rcases List.mem_cons.mp he with rfl | he
    · rfl
    · exact h e he

theorem IsKeyed.insertMany (h : s.IsKeyed) (chunks : List Bytes) :
    (chunks.foldl ChunkStore.insert s).IsKeyed := by
  induction chunks generalizing s with
  | nil => exact h
  | cons c chunks ih => exact ih (h.insert c)

theorem IsKeyed.insertFile (h : s.IsKeyed) (name : String) (content : Bytes) :
    (s.insertFile name content).IsKeyed := by
  unfold ChunkStore.insertFile
  split
  · split
    · exact h.insert content
    · exact h
  · exact h

theorem isKeyed_empty : IsKeyed {} := by
  intro e he
  cases he

theorem isKeyed_ofFiles (files : List (String × Bytes)) : (ofFiles files).IsKeyed := by
  have hfold (s : ChunkStore) (hs : s.IsKeyed) :
      (files.foldl (fun s f => s.insertFile f.1 f.2) s).IsKeyed := by
    induction files generalizing s with
    | nil => exact hs
    | cons f files ih => exact ih _ (hs.insertFile f.1 f.2)
  exact hfold {} isKeyed_empty

theorem IsFilled.isKeyed (h : s.IsFilled) : s.IsKeyed := by
  induction h with
  | empty => exact isKeyed_empty
  | files files => exact isKeyed_ofFiles files
  | insert _ chunk ih => exact ih.insert chunk
  | insertAll _ data size ih => exact ih.insertMany (Bytes.chunks size data)

/-- A chunk that is found under a digest is kept, and the digest is its own. -/
theorem IsKeyed.of_get? {d found : Bytes} (h : s.IsKeyed) (hd : s.get? d = some found) :
    s.Holds found ∧ digest found = d := by
  obtain ⟨before, behind, hentries, -⟩ := List.lookup_eq_some_iff.mp hd
  have hmem : (d, found) ∈ s.entries := by simp [hentries]
  exact ⟨List.mem_map_of_mem hmem, (h _ hmem).symm⟩

theorem IsKeyed.isSome_get? (h : s.IsKeyed) (hc : s.Holds chunk) :
    (s.get? (digest chunk)).isSome := by
  obtain ⟨e, he, rfl⟩ := List.mem_map.mp hc
  rw [← h e he, Option.isSome_iff_ne_none]
  intro hnone
  have hother := List.lookup_eq_none_iff.mp hnone e he
  simp at hother

/-- A chunk that is kept is found under its digest, and if it is not, nothing is. -/
theorem get?_digest (h : s.IsKeyed) (hd : ∀ d, s.Holds d → digest d = digest chunk → d = chunk) :
    s.get? (digest chunk) = if s.Holds chunk then some chunk else none := by
  rcases hg : s.get? (digest chunk) with _ | found
  · rw [if_neg]
    intro hc
    have hsome := h.isSome_get? hc
    rw [hg] at hsome
    cases hsome
  · -- what is found has the digest, so it is the chunk itself
    obtain ⟨hfound, hsame⟩ := h.of_get? hg
    obtain rfl := hd found hfound hsame
    rw [if_pos hfound]

/-- Chunks that are not all kept are some that are, and behind them one that is not. -/
theorem exists_first_missing {chunks : List Bytes} (h : ∃ c ∈ chunks, ¬s.Holds c) :
    ∃ before missing behind, chunks = before ++ missing :: behind ∧
      (∀ c ∈ before, s.Holds c) ∧ ¬s.Holds missing := by
  obtain ⟨c, hc, hmissing⟩ := h
  have hsome : (chunks.find? fun c => !decide (s.Holds c)).isSome :=
    List.find?_isSome.mpr ⟨c, hc, by simpa using hmissing⟩
  obtain ⟨missing, hfind⟩ := Option.isSome_iff_exists.mp hsome
  obtain ⟨hnot, before, behind, hsplit, hbefore⟩ := List.find?_eq_some_iff_append.mp hfind
  refine ⟨before, missing, behind, hsplit, fun c hc => ?_, by simpa using hnot⟩
  simpa using hbefore c hc

/-- References to the pieces of a payload give it back from any store that holds them all. Elsewhere
they give back the pieces before the first one that is missing, as damage. -/
theorem rebuilds (writer : ChunkStore) (data : Bytes) (size : Nat) (hs : s.IsFilled)
    (hd : s.TellsApart (Bytes.chunks size data))
    (hl : ∀ piece ∈ Bytes.chunks size data, piece.length < 2 ^ 32) {r : Record}
    (hr : r.payload = (writer.insertAll data size).2) :
    ((∀ piece ∈ Bytes.chunks size data, s.Holds piece) → s.rehydrate r = .ok data) ∧
    ((∃ piece ∈ Bytes.chunks size data, ¬s.Holds piece) →
      ∃ before missing behind, Bytes.chunks size data = before ++ missing :: behind ∧
        (∀ piece ∈ before, s.Holds piece) ∧ ¬s.Holds missing ∧
        s.rehydrate r = .error (.recoverable
          ("chunk " ++ Text.Hex.ofBytes (digest missing) ++ " not found") before.flatten)) ∧
    writer.insertAll data 0 = writer.insertAll data 1 := by
  have hpieces : r.payload = (Bytes.chunks size data).flatMap reference := hr
  have hget (piece : Bytes) (hp : piece ∈ Bytes.chunks size data) :
      s.get? (digest piece) = if s.Holds piece then some piece else none :=
    get?_digest hs.isKeyed (hd piece hp)
  have hknown (piece : Bytes) (hp : piece ∈ Bytes.chunks size data) (hheld : s.Holds piece) :
      s.Knows piece := by
    rw [Knows, hget piece hp, if_pos hheld]
  refine ⟨fun hall => ?_, fun hsome => ?_, ?_⟩
  · exact rehydrate_references (fun piece hp => hknown piece hp (hall piece hp)) hl hpieces
  · obtain ⟨before, missing, behind, hsplit, hheld, hmissing⟩ := exists_first_missing hsome
    refine ⟨before, missing, behind, hsplit, hheld, hmissing, ?_⟩
    have hin (c : Bytes) (hc : c ∈ before) : c ∈ Bytes.chunks size data := by
      rw [hsplit]
      exact List.mem_append_left _ hc
    have hnone : s.get? (digest missing) = none := by
      rw [hget missing (by simp [hsplit]), if_neg hmissing]
    rw [rehydrate_eq_resolve s hpieces, hsplit, List.map_append, List.map_cons,
      resolve_known (fun c hc => hknown c (hin c hc) (hheld c hc)) (fun c hc => hl c (hin c hc)),
      resolve_missing hnone]
    simp
  · simp only [insertAll, Bytes.chunks_zero]

/-- Of two pieces the store holds the first one. -/
theorem rebuilds_first_piece :
    let data : Bytes := [97, 97, 97, 97, 98, 98, 98, 98]
    let reader := ({} : ChunkStore).insert [97, 97, 97, 97]
    let r : Record := ⟨1, ⟨2⟩, (({} : ChunkStore).insertAll data 4).2, {}, 0⟩
    reader.IsFilled ∧ reader.TellsApart (Bytes.chunks 4 data) ∧
      (∀ piece ∈ Bytes.chunks 4 data, piece.length < 2 ^ 32) ∧
      r.payload = (({} : ChunkStore).insertAll data 4).2 ∧
      ∃ message, reader.rehydrate r = .error (.recoverable message [97, 97, 97, 97]) := by
  intro data reader r
  have hpieces : Bytes.chunks 4 data = [[97, 97, 97, 97], [98, 98, 98, 98]] := by decide +kernel
  have hfilled : reader.IsFilled := .insert .empty [97, 97, 97, 97]
  have hheld (c : Bytes) : reader.Holds c ↔ c = [97, 97, 97, 97] := List.mem_singleton
  have hother : digest [97, 97, 97, 97] ≠ digest [98, 98, 98, 98] := by decide +kernel
  have happart : reader.TellsApart (Bytes.chunks 4 data) := by
    intro c hc d hd hsame
    obtain rfl := (hheld d).mp hd
    rw [hpieces] at hc
    rcases List.mem_cons.mp hc with rfl | hc
    · rfl
    · obtain rfl := List.mem_singleton.mp hc
      exact absurd hsame hother
  have hshort : ∀ piece ∈ Bytes.chunks 4 data, piece.length < 2 ^ 32 := by
    rw [hpieces]
    decide
  obtain ⟨-, hpart, -⟩ := rebuilds {} data 4 hfilled happart hshort (r := r) rfl
  obtain ⟨before, missing, behind, hsplit, hbefore, hmissing, hfound⟩ :=
    hpart ⟨[98, 98, 98, 98], by simp [hpieces], by simp [hheld]⟩
  refine ⟨hfilled, happart, hshort, rfl, ?_⟩
  rw [hpieces] at hsplit
  rcases before with _ | ⟨x, _ | ⟨y, before⟩⟩
  · cases hsplit
    exact absurd ((hheld _).mpr rfl) hmissing
  · cases hsplit
    exact ⟨_, hfound⟩
  · simp at hsplit

end BackupVolume.ChunkStore
