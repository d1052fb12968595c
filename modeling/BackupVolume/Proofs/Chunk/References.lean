import BackupVolume.Chunk.Store
import Mathlib.Algebra.Group.Nat.Defs

/-! # References to stored chunks

A payload that was cut into chunks is their concatenation, and its references have one length. A
store keeps every chunk that it was given, as long as no other chunk has the same digest; so it puts
together every payload whose chunks it was given, whatever else it was given before or since.
-/
namespace BackupVolume

namespace Bytes

theorem chunks_of_ne_nil (size : Nat) {bs : Bytes} (h : bs ≠ []) :
    chunks size bs = bs.take (max size 1) :: chunks size (bs.drop (max size 1)) := by
  rw [chunks, if_neg (by simpa using h)]

/-- Pieces have at least one octet. -/
theorem chunks_zero (bs : Bytes) : chunks 0 bs = chunks 1 bs := by
  fun_induction chunks 0 bs with
  | case1 bs h => rw [chunks, if_pos h]
  | case2 bs h ih =>
    have hne : bs ≠ [] := by simpa using h
    rw [ih, chunks_of_ne_nil 1 hne]
    rfl

theorem flatten_chunks (size : Nat) (bs : Bytes) : (chunks size bs).flatten = bs := by
  fun_induction chunks size bs with
  | case1 bs h => simpa using h.symm
  | case2 bs h ih => rw [List.flatten_cons, ih, List.take_append_drop]

theorem length_le_of_mem_chunks {size : Nat} {bs piece : Bytes} (h : piece ∈ chunks size bs) :
    piece.length ≤ bs.length := by
  rw [← flatten_chunks size bs]
  exact (List.sublist_flatten_of_mem h).length_le

theorem chunks_flatten {size : Nat} (hs : 0 < size) {pieces : List Bytes}
    (h : ∀ piece ∈ pieces, piece.length = size) : chunks size pieces.flatten = pieces := by
  induction pieces with
  | nil => simp [chunks]
  | cons piece pieces ih =>
    have hlength : piece.length = max size 1 := by
      rw [h piece (by simp)]
      omega
    have hne : piece ++ pieces.flatten ≠ [] := by
      intro hnil
      have := congrArg List.length hnil
      rw [List.length_append, hlength, List.length_nil] at this
      omega
    rw [List.flatten_cons, chunks_of_ne_nil size hne, List.take_left' hlength,
      List.drop_left' hlength, ih fun q hq => h q (by simp [hq])]

end Bytes

namespace Digest

theorem length_bytes32 (ws : List UInt32) : (bytes32 ws).length = 4 * ws.length := by
  induction ws with
  | nil => rfl
  | cons w ws ih =>
    have hcons : bytes32 (w :: ws) = littleEndian 4 w.toNat ++ bytes32 ws := rfl
    rw [hcons, List.length_append, ih, littleEndian, List.length_reverse, Bytes.length_ofNat,
      List.length_cons]
    omega

theorem Blake3.length_hash (bs : Bytes) : (hash bs).length = 32 := by
  rw [hash, length_bytes32, Node.output]
  simp

end Digest

namespace ChunkStore

theorem length_digest (chunk : Bytes) : (digest chunk).length = 32 := Digest.Blake3.length_hash chunk

theorem length_reference (chunk : Bytes) : (reference chunk).length = referenceLength := by
  rw [reference, List.length_append, length_digest, Bytes.length_ofUInt32, referenceLength]

def Knows (s : ChunkStore) (chunk : Bytes) : Prop := s.get? (digest chunk) = some chunk

/-- No two of these chunks have one digest, nor has one of them the digest of another chunk that the
store knows. -/
structure Separates (s : ChunkStore) (chunks : List Bytes) : Prop where
  stored : ∀ c ∈ chunks, ∀ d, s.get? (digest c) = some d → d = c
  given : ∀ c ∈ chunks, ∀ d ∈ chunks, digest c = digest d → c = d

theorem get?_insert (s : ChunkStore) (chunk d : Bytes) :
    (s.insert chunk).get? d
      = if d = digest chunk then some ((s.get? d).getD chunk) else s.get? d := by
  have hinsert : s.insert chunk
      = if (s.get? (digest chunk)).isSome then s else ⟨(digest chunk, chunk) :: s.entries⟩ := rfl
  rw [hinsert]
  by_cases hd : d = digest chunk
  · subst hd
    rcases hs : s.get? (digest chunk) with _ | x
    · simp [get?]
    · simp [hs]
  · rw [if_neg hd]
    split
    · rfl
    · simp [get?, List.lookup_cons, beq_eq_false_iff_ne.mpr hd]

theorem Knows.insertMany {s : ChunkStore} {chunk : Bytes} (h : s.Knows chunk)
    (chunks : List Bytes) : (chunks.foldl insert s).Knows chunk := by
  induction chunks generalizing s with
  | nil => exact h
  | cons c chunks ih =>
    apply ih
    unfold Knows at h ⊢
    rw [get?_insert, h]
    simp

theorem Separates.knows_insert {s : ChunkStore} {chunk : Bytes} {chunks : List Bytes}
    (h : s.Separates (chunk :: chunks)) : (s.insert chunk).Knows chunk := by
  rw [Knows, get?_insert, if_pos rfl]
  rcases hs : s.get? (digest chunk) with _ | d
  · rfl
  · rw [h.stored chunk (by simp) d hs]
    rfl

theorem Separates.insert {s : ChunkStore} {chunk : Bytes} {chunks : List Bytes}
    (h : s.Separates (chunk :: chunks)) : (s.insert chunk).Separates chunks where
  stored c hc d hd := by
    rw [get?_insert] at hd
    by_cases hsame : digest c = digest chunk
    · have hequal := h.given c (by simp [hc]) chunk (by simp) hsame
      have hknown := h.knows_insert
      rw [Knows, get?_insert, if_pos rfl] at hknown
      rw [if_pos hsame, hsame, hknown] at hd
      rw [hequal, Option.some.inj hd]
    · rw [if_neg hsame] at hd
      exact h.stored c (by simp [hc]) d hd
  given c hc d hd := h.given c (by simp [hc]) d (by simp [hd])

theorem Separates.knows_insertMany {s : ChunkStore} {chunks : List Bytes} (h : s.Separates chunks)
    {chunk : Bytes} (hc : chunk ∈ chunks) : (chunks.foldl ChunkStore.insert s).Knows chunk := by
  induction chunks generalizing s with
  | nil => simp at hc
  | cons c chunks ih =>
    rw [List.foldl_cons]
    rcases List.mem_cons.mp hc with rfl | hc
    · exact h.knows_insert.insertMany chunks
    · exact ih h.insert hc

/-- The chunks of references that the store knows are put together, and the rest is resolved behind
them. -/
theorem resolve_known {s : ChunkStore} {chunks : List Bytes} (hk : ∀ c ∈ chunks, s.Knows c)
    (hl : ∀ c ∈ chunks, c.length < 2 ^ 32) (done : Array UInt8) (rest : List Bytes) :
    s.resolve done (chunks.map reference ++ rest) = s.resolve (done ++ chunks.flatten) rest := by
  induction chunks generalizing done with
  | nil => simp
  | cons c chunks ih =>
    have hdigest : (reference c).take 32 = digest c := List.take_left' (length_digest c)
    have hrest : (reference c).drop 32 = Bytes.ofUInt32 c.length.toUInt32 :=
      List.drop_left' (length_digest c)
    have hlength : c.length.toUInt32.toNat = c.length := by
      rw [Nat.toUInt32, UInt32.toNat_ofNat']
      exact Nat.mod_eq_of_lt (hl c (by simp))
    have hknown : s.get? (digest c) = some c := hk c (by simp)
    rw [List.map_cons, List.cons_append, resolve]
    simp only [hdigest, hrest, hknown, Bytes.toUInt32_ofUInt32, hlength, if_true]
    rw [ih (fun d hd => hk d (by simp [hd])) fun d hd => hl d (by simp [hd])]
    have hdone : done ++ c ++ chunks.flatten = done ++ (c :: chunks).flatten := by
      apply Array.ext'
      simp
    rw [hdone]

/-- At a chunk that the store does not have, resolving stops. -/
theorem resolve_missing {s : ChunkStore} {chunk : Bytes} (h : s.get? (digest chunk) = none)
    (done : Array UInt8) (rest : List Bytes) :
    s.resolve done (reference chunk :: rest) = .error
      (.recoverable ("chunk " ++ Text.Hex.ofBytes (digest chunk) ++ " not found") done.toList) := by
  have hdigest : (reference chunk).take 32 = digest chunk := List.take_left' (length_digest chunk)
  rw [resolve]
  simp only [hdigest, h]

/-- A list of references is resolved reference by reference. -/
theorem rehydrate_eq_resolve (s : ChunkStore) {chunks : List Bytes} {r : Record}
    (hr : r.payload = chunks.flatMap reference) :
    s.rehydrate r = s.resolve #[] (chunks.map reference) := by
  have hpieces : Bytes.chunks referenceLength r.payload = chunks.map reference := by
    rw [hr, List.flatMap_def]
    apply Bytes.chunks_flatten (by decide)
    intro piece hp
    obtain ⟨c, -, rfl⟩ := List.mem_map.mp hp
    exact length_reference c
  have hwhole : r.payload.length % referenceLength = 0 := by
    simp [hr, List.length_flatMap, length_reference, List.map_const']
  unfold rehydrate
  simp only [hwhole, ne_eq, not_true_eq_false, if_false, hpieces]

theorem rehydrate_references {s : ChunkStore} {data : Bytes} {size : Nat}
    (hk : ∀ c ∈ Bytes.chunks size data, s.Knows c)
    (hl : ∀ c ∈ Bytes.chunks size data, c.length < 2 ^ 32) {r : Record}
    (hr : r.payload = (Bytes.chunks size data).flatMap reference) : s.rehydrate r = .ok data := by
  have hresolve := resolve_known hk hl #[] []
  rw [List.append_nil] at hresolve
  rw [rehydrate_eq_resolve s hr, hresolve, Bytes.flatten_chunks]
  simp [resolve]

def encode (s : ChunkStore) (r : Record) (size : Nat) : ChunkStore × Record :=
  if r.tag.isDedup then
    let (s, references) := s.insertAll r.payload size
    (s, { r with payload := references })
  else (s, r)

def encodeAll (s : ChunkStore) : List (Record × Nat) → ChunkStore × List Record
  | [] => (s, [])
  | (r, size) :: rest =>
    let (s, stored) := s.encode r size
    let (s, others) := encodeAll s rest
    (s, stored :: others)

def piecesOf (r : Record) (size : Nat) : List Bytes :=
  if r.tag.isDedup then Bytes.chunks size r.payload else []

def encoded (r : Record) (size : Nat) : Record :=
  if r.tag.isDedup then { r with payload := (piecesOf r size).flatMap reference } else r

def piecesOfAll (rs : List (Record × Nat)) : List Bytes := rs.flatMap fun p => piecesOf p.1 p.2

theorem encode_eq (s : ChunkStore) (r : Record) (size : Nat) :
    s.encode r size = ((piecesOf r size).foldl insert s, encoded r size) := by
  unfold encode encoded piecesOf
  by_cases hd : r.tag.isDedup = true
  · simp only [if_pos hd, insertAll]
  · simp only [if_neg hd, List.foldl_nil]

theorem encodeAll_eq (s : ChunkStore) (rs : List (Record × Nat)) :
    s.encodeAll rs = ((piecesOfAll rs).foldl insert s, rs.map fun p => encoded p.1 p.2) := by
  induction rs generalizing s with
  | nil => rfl
  | cons p rs ih =>
    rw [encodeAll, encode_eq]
    simp only [ih, piecesOfAll, List.flatMap_cons, List.foldl_append, List.map_cons]

/-- A store knows the chunks of all records that were stored with it. -/
theorem knows_encodeAll {s : ChunkStore} {rs : List (Record × Nat)}
    (h : s.Separates (piecesOfAll rs)) {p : Record × Nat} (hp : p ∈ rs) {piece : Bytes}
    (hc : piece ∈ piecesOf p.1 p.2) : (s.encodeAll rs).1.Knows piece := by
  rw [encodeAll_eq]
  exact h.knows_insertMany (List.mem_flatMap.mpr ⟨p, hp, hc⟩)

end ChunkStore
end BackupVolume
