import BackupVolume.Proofs.Chunk.References
import BackupVolume.Proofs.Compression.Unpacking
import BackupVolume.Proofs.Stream.Modifiers

/-! # Stored chunks are decoded

A part of a file is stored as it is or compressed, bare or in a container, with or without its
address, and all that may be deduplicated. Whatever the form, a decoder that has the chunks and the
codecs gives the part back and is ready for the next one.
-/
namespace BackupVolume
open Compression

/-- A part of a content and the form in which it is stored. Zeros in front of it may be left out. -/
structure StoredChunk where
  gap : Nat := 0
  data : Bytes
  tag : StreamTag
  compress : Bytes → Bytes := id
  codec : CodecId := .zlib
  level : Int := 0
  pieceSize : Nat := 0

namespace StoredChunk

def packed (codecs : Codecs) (c : StoredChunk) : Bytes :=
  match c.tag.treatment? with
  | some .inflate => c.compress c.data
  | some .unwrap =>
    Container.wrapWith { codecs.wrapped c.codec with compress := c.compress }
      (c.codec.magic?.getD 0) c.level c.data
  | _ => c.data

def address? (c : StoredChunk) (address : Nat) : Option Nat :=
  if c.tag.hasOffsets then some address else none

def payload (codecs : Codecs) (c : StoredChunk) (address : Nat) : Bytes :=
  match c.address? address with
  | some address => withAddress address (c.packed codecs)
  | none => c.packed codecs

/-- The tag is one of file data, zeros are left out only in front of an address, and decompressing
undoes what was done, within the room of a decoder. -/
structure IsSound (codecs : Codecs) (cap : Nat) (c : StoredChunk) : Prop where
  tag : 0 < c.tag.raw
  kind : c.tag.isFileData = true
  gap : c.tag.hasOffsets = false → c.gap = 0
  inflates : c.tag.treatment? = some .inflate → codecs.plain.Restores cap (c.compress c.data) c.data
  unwraps : c.tag.treatment? = some .unwrap → c.codec.magic?.isSome = true ∧
    (codecs.wrapped c.codec).Restores cap (c.compress c.data) c.data

end StoredChunk

/-- A decoder for records without damage: it has these codecs and chunks, and counted no error. -/
structure Decoder.IsReady (codecs : Codecs) (cap : Nat) (store : ChunkStore) (d : Decoder) :
    Prop where
  codecs : d.codecs = codecs
  rehydrator : d.rehydrator = store.rehydrate
  unpacker : d.unpacker = Attributes.ofRecord
  cap : d.scratch.cap = cap
  errors : d.stats.errors = 0

namespace Decoder
variable {codecs : Codecs} {cap : Nat} {store : ChunkStore} {d : Decoder}

theorem isReady_create (o : JobOptions) (codecs : Codecs) (store : ChunkStore) :
    IsReady codecs (max o.decompressCap 1) store { create o store.rehydrate with codecs } :=
  ⟨rfl, rfl, rfl, rfl, rfl⟩

theorem IsReady.rehydrate (hd : d.IsReady codecs cap store) {r s : Record} {size : Nat}
    (ht : s.tag = r.tag) (hp : s.payload = (ChunkStore.encoded r size).payload)
    (hk : ∀ c ∈ ChunkStore.piecesOf r size, store.Knows c) (hl : r.payload.length < 2 ^ 32) :
    ∃ e x, d.rehydrate s = (e, .ok x) ∧ e.IsReady codecs cap store ∧ x.payload = r.payload ∧
      x.fileIndex = s.fileIndex ∧
      x.tag = if r.tag.isDedup then r.tag.withoutDedup else r.tag := by
  unfold Decoder.rehydrate
  unfold ChunkStore.encoded ChunkStore.piecesOf at hp
  unfold ChunkStore.piecesOf at hk
  by_cases hdedup : r.tag.isDedup = true
  · rw [if_pos hdedup] at hk
    rw [if_pos hdedup, if_pos hdedup] at hp
    have hfound := ChunkStore.rehydrate_references hk
      (fun c hc => Nat.lt_of_le_of_lt (Bytes.length_le_of_mem_chunks hc) hl) hp
    rw [← hd.rehydrator] at hfound
    simp only [ht, hdedup, Bool.not_true, Bool.false_eq_true, if_false, hfound, rehydrated, if_true]
    exact ⟨_, _, rfl, ⟨hd.codecs, hd.rehydrator, hd.unpacker, hd.cap, hd.errors⟩, rfl, rfl, rfl⟩
  · rw [if_neg hdedup] at hp
    simp only [ht, hdedup, Bool.not_false, if_true, Bool.false_eq_true, if_false]
    exact ⟨_, _, rfl, hd, hp, rfl, ht⟩

theorem IsReady.decompress (hd : d.IsReady codecs cap store) {r : Record} {address : Option Nat}
    {packed squeezed data : Bytes} (ha : r.splitAddress = .ok (address, packed)) {c : Codec}
    (hc : c.Restores cap squeezed data)
    {f : Bytes → Scratch → Except CodecError Bytes × Scratch}
    (hf : ∀ s, f packed s = s.fit (c.decompress squeezed)) :
    ∃ e, d.decompress r f = (e, .ok (.write address data)) ∧ e.IsReady codecs cap store := by
  rw [← hd.cap] at hc
  obtain ⟨t, hfit, hcap⟩ := hc.fit
  simp only [Decoder.decompress, ha, hf, hfit]
  exact ⟨_, rfl, hd.codecs, hd.rehydrator, hd.unpacker, hcap.trans hd.cap, hd.errors⟩

end Decoder

namespace StoredChunk
variable {codecs : Codecs} {cap : Nat} {store : ChunkStore} {d : Decoder} {c : StoredChunk}
  {address : Nat}

theorem splitAddress_payload (ha : address < 2 ^ 64) {r : Record}
    (ht : r.tag.hasOffsets = c.tag.hasOffsets) (hr : r.payload = c.payload codecs address) :
    r.splitAddress = .ok (c.address? address, c.packed codecs) := by
  unfold payload at hr
  unfold address? at hr ⊢
  by_cases ho : c.tag.hasOffsets = true
  · rw [if_pos ho] at hr ⊢
    exact Record.splitAddress_withAddress (ht.trans ho) ha hr
  · rw [if_neg ho] at hr ⊢
    rw [Record.splitAddress, ht, if_pos (by simpa using ho), hr]

theorem length_packed_le (codecs : Codecs) (c : StoredChunk) (address : Nat) :
    (c.packed codecs).length ≤ (c.payload codecs address).length := by
  unfold payload
  split
  · rw [withAddress, List.length_append]
    exact Nat.le_add_left _ _
  · exact Nat.le_refl _

theorem IsSound.treat (hc : c.IsSound codecs cap) (hd : d.IsReady codecs cap store)
    (ha : address < 2 ^ 64) {r : Record} (hk : r.tag.treatment? = c.tag.treatment?)
    (ht : r.tag.hasOffsets = c.tag.hasOffsets) (hr : r.payload = c.payload codecs address)
    (hl : (c.payload codecs address).length < 2 ^ 32) :
    ∃ e, d.treat r = (e, .ok (.write (c.address? address) c.data)) ∧
      e.IsReady codecs cap store := by
  have hsplit := splitAddress_payload ha ht hr
  have hkind : r.tag.kind?.bind Treatment.ofKind? = c.tag.treatment? := hk
  have hpacked := c.length_packed_le codecs address
  unfold Decoder.treat
  rw [hkind]
  unfold packed at hsplit hpacked
  rcases StreamTag.treatment?_of_isFileData hc.kind with h | h | h
  · simp only [h] at hsplit ⊢
    simp only [hsplit]
    exact ⟨d, rfl, hd⟩
  · simp only [h] at hsplit ⊢
    rw [hd.codecs]
    exact hd.decompress hsplit (hc.inflates h) fun s => rfl
  · simp only [h] at hsplit hpacked ⊢
    obtain ⟨hmagic, hrestores⟩ := hc.unwraps h
    obtain ⟨magic, hm⟩ := Option.isSome_iff_exists.mp hmagic
    rw [hm, Option.getD_some] at hsplit hpacked
    have hshort : (c.compress c.data).length < 2 ^ 32 := by
      simp only [Container.wrapWith, List.length_append] at hpacked
      omega
    rw [hd.codecs]
    exact hd.decompress hsplit hrestores fun s => codecs.unwrap_wrapWith hm _ c.level c.data hshort s

def record (codecs : Codecs) (fileIndex : Int32) (address : Nat) (c : StoredChunk) : Record :=
  { fileIndex, tag := c.tag, payload := c.payload codecs address }

/-- Whatever form a chunk is stored in, its data are decoded. -/
theorem IsSound.decode (hc : c.IsSound codecs cap) (hd : d.IsReady codecs cap store)
    (ha : address < 2 ^ 64) {fileIndex : Int32}
    (hk : ∀ piece ∈ ChunkStore.piecesOf (c.record codecs fileIndex address) c.pieceSize,
      store.Knows piece)
    (hl : (c.payload codecs address).length < 2 ^ 32) {s : Record} (ht : s.tag = c.tag)
    (hp : s.payload
      = (ChunkStore.encoded (c.record codecs fileIndex address) c.pieceSize).payload) :
    ∃ e, d.decode s = (e, .ok (.write (c.address? address) c.data)) ∧
      e.IsReady codecs cap store := by
  have hstart : Decoder.IsReady codecs cap store
      { d with stats := { d.stats with records := d.stats.records + 1 } } :=
    ⟨hd.codecs, hd.rehydrator, hd.unpacker, hd.cap, hd.errors⟩
  obtain ⟨e, x, hrehydrate, hready, hpayload, -, htag⟩ := hstart.rehydrate ht hp hk hl
  have hkeeps : x.tag.treatment? = c.tag.treatment? ∧ x.tag.hasOffsets = c.tag.hasOffsets := by
    rw [htag]
    split
    · exact ⟨StreamTag.treatment?_withoutDedup hc.tag, StreamTag.hasOffsets_withoutDedup hc.tag⟩
    · exact ⟨rfl, rfl⟩
  obtain ⟨f, htreat, hdone⟩ := hc.treat hready ha hkeeps.1 hkeeps.2 hpayload hl
  simp only [Decoder.decode, hrehydrate, htreat]
  exact ⟨f, rfl, hdone⟩

end StoredChunk

theorem Decoder.IsReady.decode_attributes {codecs : Codecs} {cap : Nat} {store : ChunkStore}
    {d : Decoder} (hd : d.IsReady codecs cap store) {r : Record} (hk : r.tag.isAttributes = true)
    (ht : r.tag.isDedup = false) {a : Attributes} (ha : Attributes.ofRecord r = .ok a) :
    ∃ e, d.decode r = (e, .ok (.attributes a)) ∧ e.IsReady codecs cap store := by
  have hkind : r.tag.kind?.bind Treatment.ofKind? = some .attributes :=
    StreamTag.treatment?_of_isAttributes hk
  simp only [Decoder.decode, Decoder.rehydrate, ht, Bool.not_false, if_true, Decoder.treat, hkind,
    hd.unpacker, ha]
  exact ⟨_, rfl, hd.codecs, hd.rehydrator, rfl, hd.cap, hd.errors⟩

end BackupVolume
