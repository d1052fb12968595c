import BackupVolume.Proofs.Block.Reading

/-! # Reading accepts what writing produces

A block is read if and only if it was written, whatever follows it: the header and the payload that
reading returns are written as the same octets again. Reading looks at no octet that is not there.
-/
namespace BackupVolume

def Bytes.window? (bs : Bytes) (i j : Nat) : Option Bytes :=
  if i ≤ j ∧ j ≤ bs.length then some (bs.slice i (j - i)) else none

theorem Bytes.window?_eq {bs : Bytes} {i j : Nat} (hi : i ≤ j) (hj : j ≤ bs.length) :
    bs.window? i j = some (bs.slice i (j - i)) := if_pos ⟨hi, hj⟩

theorem Bytes.slice_to_end (bs : Bytes) (i : Nat) : bs.slice i (bs.length - i) = bs.drop i := by
  rw [slice, List.take_of_length_le (Nat.le_of_eq List.length_drop)]

namespace BlockHeader

def checksumWithin? (layout : HeaderLayout) (block : Bytes) : Option UInt64 :=
  match layout with
  | .bb01 | .bb02 => do
    let behind ← block.window? 4 block.length
    return (Checksum.Crc32.checksum behind).toUInt64
  | .bb03 => do
    let front ← block.window? 0 24
    let behind ← block.window? 32 block.length
    return Checksum.XxHash64.hash 0 (front ++ (List.replicate 8 0 ++ behind))

def sessionWithin? (layout : HeaderLayout) (raw : Bytes) : Option Session :=
  if layout.hasSession then do
    let id ← raw.window? 16 20
    let time ← raw.window? 20 24
    return ⟨Bytes.toUInt32 id, Bytes.toUInt32 time⟩
  else some {}

def storedWithin? (layout : HeaderLayout) (options : BlockOptions) (raw : Bytes) : Option UInt64 :=
  if layout.alwaysChecksummed then do
    let lead ← raw.window? 0 4
    return (Bytes.toUInt32 lead).toUInt64
  else if options.contains .checksum then do
    let sum ← raw.window? 24 32
    return Bytes.toUInt64 sum
  else some 0

def bodyWithin? (verify : Bool) (layout : HeaderLayout) (options : BlockOptions) (length : UInt32)
    (raw : Bytes) : Option (Except HeaderError (BlockHeader × Bytes)) := do
  let session ← sessionWithin? layout raw
  let checksum ← storedWithin? layout options raw
  let number ← raw.window? 8 12
  let h : BlockHeader := ⟨layout, options, length, Bytes.toUInt32 number, session, checksum⟩
  let payload ← raw.window? h.headerLength length.toNat
  if verify && h.isChecksummed then
    let block ← raw.window? 0 length.toNat
    let computed ← checksumWithin? layout block
    if computed == checksum then return .ok (h, payload)
    else return .error (.checksumMismatch h.number checksum computed)
  else return .ok (h, payload)

/-- Reads a block one field after another; nothing comes out where a field is sought outside of the
octets. -/
def decodeWithin? (verify : Bool) (raw : Bytes) :
    Option (Except HeaderError (BlockHeader × Bytes)) :=
  if raw.length < minHeaderLength then some (.error (.truncated raw.length))
  else do
    let tag ← raw.window? 12 16
    match HeaderLayout.ofTag? tag with
    | none => return .error (.unknownTag tag)
    | some layout =>
      let lead ← raw.window? 0 4
      match readOptions layout (Bytes.toUInt32 lead) with
      | .error e => return .error e
      | .ok options =>
        let word ← raw.window? 4 8
        let length := Bytes.toUInt32 word
        let needed := layout.headerLength options
        if length.toNat < needed || maxBlockLength < length.toNat || raw.length < length.toNat then
          return .error (.badLength length needed raw.length)
        else bodyWithin? verify layout options length raw

section Within
variable {layout : HeaderLayout} {options : BlockOptions} {raw : Bytes}

theorem checksumWithin?_eq (hl : layout.headerLength options ≤ raw.length)
    (hc : layout.isChecksummed options = true) :
    checksumWithin? layout raw = some (checksumOf layout raw) := by
  cases layout with
  | bb01 | bb02 =>
    have hmin := Nat.le_trans (HeaderLayout.headerLength_pos _ options) hl
    have hlong : 4 ≤ raw.length := Nat.le_trans (by decide) hmin
    simp only [checksumWithin?, Bytes.window?_eq hlong (Nat.le_refl _), Bytes.slice_to_end]
    rfl
  | bb03 =>
    have ho : options.contains .checksum = true := by
      simpa [HeaderLayout.isChecksummed, HeaderLayout.alwaysChecksummed] using hc
    have hlong : 32 ≤ raw.length := by
      simpa [HeaderLayout.headerLength, HeaderLayout.alwaysChecksummed, HeaderLayout.fixedLength,
        ho] using hl
    have hfront : raw.window? 0 24 = some (raw.take 24) :=
      Bytes.window?_eq (Nat.zero_le _) (Nat.le_trans (by decide) hlong)
    simp only [checksumWithin?, hfront, Bytes.window?_eq hlong (Nat.le_refl _), Bytes.slice_to_end]
    rfl

theorem sessionWithin?_eq (hl : layout.headerLength options ≤ raw.length) :
    sessionWithin? layout raw = some (if layout.hasSession then
      ⟨Bytes.toUInt32 (raw.slice 16 4), Bytes.toUInt32 (raw.slice 20 4)⟩ else {}) := by
  have hfixed := Nat.le_trans (layout.fixedLength_le options) hl
  cases layout with
  | bb01 => rfl
  | bb02 | bb03 =>
    have hlong : 24 ≤ raw.length := hfixed
    simp only [sessionWithin?, HeaderLayout.hasSession, if_true,
      Bytes.window?_eq (show 16 ≤ 20 by decide) (Nat.le_trans (by decide) hlong),
      Bytes.window?_eq (show 20 ≤ 24 by decide) hlong]
    rfl

theorem storedWithin?_eq (hl : layout.headerLength options ≤ raw.length) :
    storedWithin? layout options raw = some (if layout.alwaysChecksummed then
        (Bytes.toUInt32 (raw.take 4)).toUInt64
      else if options.contains .checksum then Bytes.toUInt64 (raw.slice 24 8) else 0) := by
  have hmin := Nat.le_trans (layout.headerLength_pos options) hl
  have hlead : raw.window? 0 4 = some (raw.take 4) :=
    Bytes.window?_eq (Nat.zero_le _) (Nat.le_trans (by decide) hmin)
  rw [storedWithin?]
  by_cases ha : layout.alwaysChecksummed = true
  · rw [if_pos ha, if_pos ha, hlead]
    rfl
  · rw [if_neg ha, if_neg ha]
    by_cases hc : options.contains .checksum = true
    · have hlong : 32 ≤ raw.length := by
        cases layout with
        | bb01 | bb02 => exact absurd rfl ha
        | bb03 =>
          simpa [HeaderLayout.headerLength, HeaderLayout.alwaysChecksummed,
            HeaderLayout.fixedLength, hc] using hl
      rw [if_pos hc, if_pos hc, Bytes.window?_eq (by decide) hlong]
      rfl
    · rw [if_neg hc, if_neg hc]

theorem bodyWithin?_eq {verify : Bool} {h : BlockHeader} (hr : IsRead raw h)
    (hf : h.lengthFits raw.length = true) :
    bodyWithin? verify h.layout h.options h.length raw = some (
      if verify && h.isChecksummed then
        if checksumOf h.layout (raw.take h.length.toNat) == h.checksum then
          .ok (h, (raw.take h.length.toNat).drop h.headerLength)
        else .error (.checksumMismatch h.number h.checksum
          (checksumOf h.layout (raw.take h.length.toNat)))
      else .ok (h, (raw.take h.length.toNat).drop h.headerLength)) := by
  simp only [lengthFits, Bool.and_eq_true, decide_eq_true_eq] at hf
  obtain ⟨⟨hheader, -⟩, havailable⟩ := hf
  have hlong : h.layout.headerLength h.options ≤ raw.length := Nat.le_trans hheader havailable
  have hmin := Nat.le_trans (h.layout.headerLength_pos h.options) hlong
  have hnumber : raw.window? 8 12 = some (raw.slice 8 4) :=
    Bytes.window?_eq (by decide) (Nat.le_trans (by decide) hmin)
  have hpayload : raw.window? h.headerLength h.length.toNat
      = some ((raw.take h.length.toNat).drop h.headerLength) := by
    rw [Bytes.window?_eq hheader havailable, List.drop_take, Bytes.slice]
  have hblock : raw.window? 0 h.length.toNat = some (raw.take h.length.toNat) :=
    Bytes.window?_eq (Nat.zero_le _) havailable
  have hsame : (⟨h.layout, h.options, h.length, h.number, h.session, h.checksum⟩ : BlockHeader) = h :=
    rfl
  simp only [bodyWithin?, sessionWithin?_eq hlong, storedWithin?_eq hlong, ← hr.session,
    ← hr.checksum, hnumber, ← hr.number, hsame, bind, Option.bind_some, hpayload]
  by_cases hc : (verify && h.isChecksummed) = true
  · have hsum : checksumWithin? h.layout (raw.take h.length.toNat)
        = some (checksumOf h.layout (raw.take h.length.toNat)) := by
      refine @checksumWithin?_eq h.layout h.options _ ?_ ?_
      · rw [List.length_take, Nat.min_eq_left havailable]
        exact hheader
      · simp only [Bool.and_eq_true] at hc
        exact hc.2
    simp only [if_pos hc, hblock, Option.bind_some, hsum]
    split <;> rfl
  · simp only [if_neg hc]
    rfl

/-- Reading a block seeks no octet that is not there. -/
theorem decodeWithin?_eq (verify : Bool) (raw : Bytes) :
    decodeWithin? verify raw = some (decode verify raw) := by
  rw [decodeWithin?, decode]
  by_cases hshort : raw.length < minHeaderLength
  · rw [if_pos hshort, if_pos hshort]
  · have hmin : 16 ≤ raw.length := Nat.le_of_not_lt hshort
    have htag : raw.window? 12 16 = some (raw.slice 12 4) := Bytes.window?_eq (by decide) hmin
    have hlead : raw.window? 0 4 = some (raw.take 4) :=
      Bytes.window?_eq (Nat.zero_le _) (Nat.le_trans (by decide) hmin)
    have hword : raw.window? 4 8 = some (raw.slice 4 4) :=
      Bytes.window?_eq (by decide) (Nat.le_trans (by decide) hmin)
    simp only [if_neg hshort, htag, hlead, hword, bind, Option.bind_some, Except.bind]
    rcases hl : HeaderLayout.ofTag? (raw.slice 12 4) with _ | layout
    · simp only [readFields, hl]
      rfl
    · rcases ho : readOptions layout (Bytes.toUInt32 (raw.take 4)) with e | options
      · simp only [readFields, hl, ho, bind, Except.bind]
        rfl
      · obtain ⟨h, hread⟩ : ∃ h, readFields raw = .ok h ∧ h.layout = layout ∧
            h.options = options ∧ h.length = Bytes.toUInt32 (raw.slice 4 4) := by
          simp only [readFields, hl, ho, bind, Except.bind]
          exact ⟨_, rfl, rfl, rfl, rfl⟩
        obtain ⟨hread, rfl, rfl, hlength⟩ := hread
        have hisRead := isRead_of_readFields hread
        simp only [ho, hread, ← hlength]
        have hbad : (h.length.toNat < h.layout.headerLength h.options
            || maxBlockLength < h.length.toNat || raw.length < h.length.toNat)
              = !h.lengthFits raw.length := by
          rw [Bool.eq_iff_iff]
          change _ ↔ (!(decide (h.layout.headerLength h.options ≤ h.length.toNat) && _ && _)) = true
          simp only [Bool.or_eq_true, decide_eq_true_eq, Bool.not_eq_true', Bool.and_eq_false_iff,
            decide_eq_false_iff_not]
          omega
        rw [hbad]
        by_cases hf : h.lengthFits raw.length = true
        · simp only [hf, Bool.not_true, Bool.false_eq_true, if_false]
          exact bodyWithin?_eq hisRead hf
        · simp only [hf, Bool.not_false, if_true]
          rfl

end Within

/-- Reading a block undoes writing it, whatever follows, and accepts nothing that was not written:
what it returns is written as the octets that were read. No octet is sought that is not there. -/
theorem decode_exact :
    (∀ (verify : Bool) (raw : Bytes), decodeWithin? verify raw = some (decode verify raw)) ∧
    (∀ (h : BlockHeader) (payload padding : Bytes),
      BlockOptions.ofBits? h.options.bits = some h.options →
      h.headerLength + payload.length ≤ maxBlockLength →
      decode true ((h.encode payload).2 ++ padding) = .ok ((h.encode payload).1, payload)) ∧
    ∀ (raw payload : Bytes) (h : BlockHeader), decode true raw = .ok (h, payload) →
      BlockOptions.ofBits? h.options.bits = some h.options ∧
      h.headerLength + payload.length ≤ maxBlockLength ∧
      h.encode payload = (h, raw.take h.length.toNat) := by
  refine ⟨decodeWithin?_eq, ?_, ?_⟩
  · intro h payload padding ho hl
    refine decode_encode true padding (.inr ho) ?_
    rw [encode, headerLength_complete]
    exact hl
  · intro raw payload h hd
    obtain ⟨hfields, hfits, hpayload, -⟩ := of_decode hd
    have hread := isRead_of_readFields hfields
    refine ⟨?_, ?_, encode_of_decode hd⟩
    · have ho := hread.isProper.options
      split at ho
      · rw [ho]
        rfl
      · exact ho
    · simp only [lengthFits, Bool.and_eq_true, decide_eq_true_eq] at hfits
      obtain ⟨⟨hheader, hmost⟩, havailable⟩ := hfits
      rw [hpayload, List.length_drop, List.length_take, Nat.min_eq_left havailable,
        Nat.add_sub_cancel' hheader]
      exact hmost

/-- A sealed block with a checksum and two octets of padding is read, and written again. -/
theorem decode_exact_padded :
    let h : BlockHeader := ⟨.bb03, ⟨7⟩, 0, 42, ⟨7, 9⟩, 0⟩
    BlockOptions.ofBits? h.options.bits = some h.options ∧
      h.headerLength + [1, 2, 3].length ≤ maxBlockLength ∧
      decode true ((h.encode [1, 2, 3]).2 ++ [0, 0]) = .ok ((h.encode [1, 2, 3]).1, [1, 2, 3]) ∧
      (h.encode [1, 2, 3]).1.encode [1, 2, 3] = ((h.encode [1, 2, 3]).1,
        ((h.encode [1, 2, 3]).2 ++ [0, 0]).take (h.encode [1, 2, 3]).1.length.toNat) := by
  have hread := decode_exact.2.1 ⟨.bb03, ⟨7⟩, 0, 42, ⟨7, 9⟩, 0⟩ [1, 2, 3] [0, 0] (by decide)
    (by decide)
  exact ⟨by decide, by decide, hread, (decode_exact.2.2 _ _ _ hread).2.2⟩

end BlockHeader
end BackupVolume
