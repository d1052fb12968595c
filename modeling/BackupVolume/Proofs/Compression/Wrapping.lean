import BackupVolume.Proofs.Compression.Unpacking

/-! # Containers are wrapped and unwrapped

A payload is a container exactly where it is the written form of a header of the current version, with
as many octets behind it as the header declares. What a codec packed and a container wrapped is had
back in room of any size, as long as the cap leaves enough of it.
-/
namespace BackupVolume.Compression

namespace Container

theorem toBytes_ofHeader {payload : Bytes} (h : headerLength ≤ payload.length) :
    (ofHeader payload).toBytes = payload.take headerLength := by
  rw [headerLength] at h
  have hmagic : Bytes.ofUInt32 (Bytes.toUInt32 (payload.take 4)) = payload.take 4 :=
    Bytes.ofUInt32_toUInt32 (by rw [List.length_take]; omega)
  have hlength : Bytes.ofUInt32 (Bytes.toUInt32 (payload.slice 4 4)) = payload.slice 4 4 :=
    Bytes.ofUInt32_toUInt32 (Bytes.length_slice (by omega))
  have hshort {i : Nat} (hi : i + 2 ≤ 12) :
      Bytes.ofUInt16 (Bytes.toUInt16 (payload.slice i 2)) = payload.slice i 2 :=
    Bytes.ofUInt16_toUInt16 (Bytes.length_slice (by omega))
  rw [toBytes, ofHeader, hmagic, hlength, hshort (by decide), hshort (by decide),
    payload.slice_append_slice 8 2 2, payload.slice_append_slice 4 4 4,
    payload.take_append_slice 4 8, headerLength]

/-- A payload is taken apart exactly where it holds a header, the version is the current one and the
header declares what follows. -/
theorem parse_eq_ok_iff {payload body : Bytes} {head : Container} :
    parse payload = .ok (head, body) ↔
      (headerLength ≤ payload.length ∧ (ofHeader payload).version = currentVersion ∧
        (ofHeader payload).length.toNat = payload.length - headerLength) ∧
      head = ofHeader payload ∧ body = payload.drop headerLength := by
  unfold parse
  constructor
  · intro h
    dsimp only at h
    split at h
    · cases h
    · next hlong =>
      split at h
      · cases h
      · next hversion =>
        split at h
        · cases h
        · next hlength =>
          cases h
          exact ⟨⟨Nat.le_of_not_lt hlong, Decidable.not_not.mp hversion,
            Decidable.not_not.mp hlength⟩, rfl, rfl⟩
  · rintro ⟨⟨hlong, hversion, hlength⟩, rfl, rfl⟩
    rw [if_neg (Nat.not_lt.mpr hlong), if_neg (not_not_intro hversion),
      if_neg (not_not_intro hlength)]

/-- What was taken apart is put together again. -/
theorem toBytes_append_of_parse {payload body : Bytes} {head : Container}
    (h : parse payload = .ok (head, body)) : head.toBytes ++ body = payload := by
  obtain ⟨⟨hlong, -, -⟩, rfl, rfl⟩ := parse_eq_ok_iff.mp h
  rw [toBytes_ofHeader hlong, List.take_append_drop]

end Container

/-- What a compressor made of some data is had back from a container, by a codec that finds the data
in all room that holds them. -/
theorem Codecs.unwrap_wrapped {cs : Codecs} {id : CodecId} {magic : UInt32}
    (hm : id.magic? = some magic) {c : Codec} {data : Bytes}
    (inverts : Settles ((cs.wrapped id).decompress (c.compress data)) data.length (.ok data))
    (hl : (c.compress data).length < 2 ^ 32) (level : Int) {s : Scratch}
    (fits : data.length ≤ s.cap) :
    (cs.unwrap (Container.wrapWith c magic level data) s).1 = .ok data := by
  obtain ⟨t, hfit, -⟩ := Codec.Restores.fit ⟨data.length, fits, inverts⟩
  rw [cs.unwrap_wrapWith hm c level data hl, hfit]

/-- The codecs with a magic number wrap all data, and have back what they wrapped. -/
theorem Codecs.unwrap_wrap {id : CodecId} (hid : id = .lzo1x ∨ id = .zstd) {data : Bytes}
    (inverts : Settles (id.codec.decompress (id.codec.compress data)) data.length (.ok data))
    (hl : (id.codec.compress data).length < 2 ^ 32) (level : Int) {s : Scratch}
    (fits : data.length ≤ s.cap) :
    ∃ packed, Container.wrap id level data = .ok packed ∧
      (({} : Codecs).unwrap packed s).1 = .ok data := by
  obtain ⟨magic, hm⟩ : ∃ magic, id.magic? = some magic := by
    rcases hid with rfl | rfl <;> exact ⟨_, rfl⟩
  refine ⟨Container.wrapWith id.codec magic level data, by rw [Container.wrap, hm], ?_⟩
  exact Codecs.unwrap_wrapped hm inverts hl level fits

/-- Containers are exactly the payloads with a whole header of the current version that declares the
length of what follows, and the header and what follows make up the payload. Whatever a codec makes of
data at some level is had back from its container in room of any size below a cap that holds the data,
if the codec finds them in all room that holds them and asks for more where there is less; so it is
with the codecs that have a container form. -/
theorem wraps_unwraps :
    (∀ payload : Bytes, (∃ head body, Container.parse payload = .ok (head, body)) ↔
      12 ≤ payload.length ∧
        Bytes.toUInt16 (payload.slice 10 2) = Container.currentVersion ∧
        (Bytes.toUInt32 (payload.slice 4 4)).toNat = payload.length - 12) ∧
    (∀ (payload : Bytes) (head : Container) (body : Bytes),
      Container.parse payload = .ok (head, body) → head.toBytes ++ body = payload) ∧
    (∀ (cs : Codecs) (compressor : Int → Codec) (id : CodecId) (magic : UInt32) (level : Int)
      (data : Bytes) (s : Scratch), id.magic? = some magic →
      Settles ((cs.wrapped id).decompress ((compressor level).compress data)) data.length
        (.ok data) →
      ((compressor level).compress data).length < 2 ^ 32 → data.length ≤ s.cap →
      (cs.unwrap (Container.wrapWith (compressor level) magic level data) s).1 = .ok data) ∧
    ∀ (id : CodecId) (level : Int) (data : Bytes) (s : Scratch), id = .lzo1x ∨ id = .zstd →
      Settles (id.codec.decompress (id.codec.compress data)) data.length (.ok data) →
      (id.codec.compress data).length < 2 ^ 32 → data.length ≤ s.cap →
      ∃ packed, Container.wrap id level data = .ok packed ∧
        (({} : Codecs).unwrap packed s).1 = .ok data := by
  refine ⟨fun payload => ⟨?_, fun h => ?_⟩, ?_, ?_, ?_⟩
  · rintro ⟨head, body, h⟩
    exact (Container.parse_eq_ok_iff.mp h).1
  · exact ⟨_, _, Container.parse_eq_ok_iff.mpr ⟨h, rfl, rfl⟩⟩
  · intro payload head body h
    exact Container.toBytes_append_of_parse h
  · intro cs compressor id magic level data s hm inverts hl fits
    exact Codecs.unwrap_wrapped hm inverts hl level fits
  · intro id level data s hid inverts hl fits
    exact Codecs.unwrap_wrap hid inverts hl level fits

/-- Two literals that are packed come back in all room that holds them. -/
theorem settles_lzo1x :
    Settles (CodecId.lzo1x.codec.decompress (Lzo1x.compress [5, 6])) 2 (.ok [5, 6]) := by
  intro room
  have hstart : Lzo1x.start (Lzo1x.compress [5, 6]).toByteArray room
      = if room < 2 then .error .outputFull else .ok ⟨3, ⟨#[5, 6]⟩, .literals⟩ := rfl
  have hrun : Lzo1x.run (Lzo1x.compress [5, 6]).toByteArray room 7 ⟨3, ⟨#[5, 6]⟩, .literals⟩
      = .ok ⟨#[5, 6]⟩ := rfl
  have hsize : (Lzo1x.compress [5, 6]).toByteArray.size + 1 = 7 := rfl
  change Decompressor.lift Lzo1x.decompress _ room = _
  by_cases hroom : room < 2
  · rw [if_pos hroom] at hstart ⊢
    simp only [Decompressor.lift, Lzo1x.decompress, hstart, bind, Except.bind]
  · rw [if_neg hroom] at hstart ⊢
    simp only [Decompressor.lift, Lzo1x.decompress, hstart, bind, Except.bind, hsize, hrun]
    rfl

/-- Two octets, in room for one of them that may grow to hold them and no more. -/
theorem wraps_unwraps_cap :
    let s : Scratch := ⟨1, 2, by decide, by decide⟩
    let packed := Container.wrapWith CodecId.lzo1x.codec 0x4C5A4F58 70000 [5, 6]
    CodecId.lzo1x.magic? = some 0x4C5A4F58 ∧
      Settles (CodecId.lzo1x.codec.decompress (Lzo1x.compress [5, 6])) 2 (.ok [5, 6]) ∧
      (Lzo1x.compress [5, 6]).length < 2 ^ 32 ∧ [5, 6].length ≤ s.cap ∧
      Container.parse packed = .ok (⟨0x4C5A4F58, 6, 0xFFFF, 1⟩, Lzo1x.compress [5, 6]) ∧
      Container.toBytes ⟨0x4C5A4F58, 6, 0xFFFF, 1⟩ ++ Lzo1x.compress [5, 6] = packed ∧
      (({} : Codecs).unwrap packed s).1 = .ok [5, 6] ∧
      ∃ packed, Container.wrap .lzo1x (-1) [5, 6] = .ok packed ∧
        (({} : Codecs).unwrap packed s).1 = .ok [5, 6] := by
  intro s packed
  have hparse : Container.parse packed
      = .ok (⟨0x4C5A4F58, 6, 0xFFFF, 1⟩, Lzo1x.compress [5, 6]) := rfl
  refine ⟨rfl, settles_lzo1x, by decide, by decide, hparse, ?_, ?_, ?_⟩
  · exact wraps_unwraps.2.1 packed _ _ hparse
  · exact wraps_unwraps.2.2.1 {} (fun _ => CodecId.lzo1x.codec) .lzo1x _ 70000 [5, 6] s rfl
      settles_lzo1x (by decide) (by decide)
  · exact wraps_unwraps.2.2.2 .lzo1x (-1) [5, 6] s (.inl rfl) settles_lzo1x (by decide) (by decide)

end BackupVolume.Compression
