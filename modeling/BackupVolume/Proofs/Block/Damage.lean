import BackupVolume.Proofs.Block.Reading
import BackupVolume.Proofs.Checksum.Crc32

/-! # Short bursts of damage are found out

Damage is confined to a window where two byte strings of one length agree outside of it. In the layouts
that always carry a cyclic redundancy check, damage in at most four octets that leaves the tag and the
length alone makes the check fail, however long the block is.
-/
namespace BackupVolume

/-- Byte strings of one length that differ, but not outside of `n` octets from `start` on. -/
structure Bytes.DiffersWithin (start n : Nat) (as bs : Bytes) : Prop where
  length : as.length = bs.length
  front : as.take start = bs.take start
  behind : as.drop (start + n) = bs.drop (start + n)
  ne : as ≠ bs

def Bytes.flip (bs : Bytes) (i bit : Nat) : Bytes := bs.modify i fun b => b ^^^ 1 <<< bit.toUInt8

namespace Bytes

@[simp] theorem length_flip (bs : Bytes) (i bit : Nat) : (bs.flip i bit).length = bs.length :=
  List.length_modify ..

/-- A bit that is inverted is another bit. -/
theorem xor_bit_ne (b : UInt8) {bit : Nat} (h : bit < 8) : b ^^^ 1 <<< bit.toUInt8 ≠ b := by
  have hset : ∀ bit < 8, (1 : UInt8) <<< bit.toUInt8 ≠ 0 := by decide
  intro heq
  apply hset bit h
  rw [← UInt8.xor_right_inj b, heq, UInt8.xor_zero]

theorem differsWithin_flip {bs : Bytes} {i bit : Nat} (hi : i < bs.length) (hbit : bit < 8) :
    DiffersWithin i 1 bs (bs.flip i bit) where
  length := (length_flip ..).symm
  front := by
    rw [flip, List.take_modify, List.modify_eq_self (by rw [List.length_take]; omega)]
  behind := (List.drop_modify_of_lt _ i (i + 1) bs (Nat.lt_succ_self i)).symm
  ne heq := by
    have hoctet : (bs.flip i bit)[i]? = some bs[i] := by rw [← heq, List.getElem?_eq_getElem hi]
    rw [flip, List.getElem?_modify_eq, List.getElem?_eq_getElem hi] at hoctet
    exact xor_bit_ne bs[i] hbit (Option.some.inj hoctet)

namespace DiffersWithin
variable {start n : Nat} {as bs : Bytes}

theorem take_eq (h : DiffersWithin start n as bs) {m : Nat} (hm : m ≤ start) :
    as.take m = bs.take m := by
  have hfront := congrArg (List.take m) h.front
  rwa [List.take_take, List.take_take, Nat.min_eq_left hm] at hfront

theorem drop_eq (h : DiffersWithin start n as bs) {m : Nat} (hm : start + n ≤ m) :
    as.drop m = bs.drop m := by
  have hbehind := congrArg (List.drop (m - (start + n))) h.behind
  rwa [List.drop_drop, List.drop_drop, Nat.add_sub_cancel' hm] at hbehind

theorem slice_eq (h : DiffersWithin start n as bs) {i m : Nat}
    (ho : i + m ≤ start ∨ start + n ≤ i) : as.slice i m = bs.slice i m := by
  rcases ho with hbefore | hbehind
  · have htake := congrArg (List.drop i) (h.take_eq hbefore)
    rw [List.drop_take, List.drop_take, Nat.add_sub_cancel_left] at htake
    exact htake
  · rw [slice, slice, h.drop_eq hbehind]

/-- Without octets in front that are the same. -/
theorem drop (h : DiffersWithin start n as bs) {m : Nat} (hm : m ≤ start) :
    DiffersWithin (start - m) n (as.drop m) (bs.drop m) where
  length := by rw [List.length_drop, List.length_drop, h.length]
  front := by
    have hslice := h.slice_eq (i := m) (m := start - m) (.inl (by omega))
    exact hslice
  behind := by
    rw [List.drop_drop, List.drop_drop]
    exact h.drop_eq (by omega)
  ne heq := by
    apply h.ne
    rw [← List.take_append_drop m as, ← List.take_append_drop m bs, h.take_eq hm, heq]

/-- What stands before the window, in it and behind it. -/
theorem exists_parts (h : DiffersWithin start n as bs) : ∃ front xs ys rest : Bytes,
    as = front ++ (xs ++ rest) ∧ bs = front ++ (ys ++ rest) ∧ xs.length = ys.length ∧
      xs.length ≤ n ∧ xs ≠ ys := by
  have hparts (cs : Bytes) : cs.take start ++ (cs.slice start n ++ cs.drop (start + n)) = cs := by
    rw [slice, ← List.drop_drop, List.take_append_drop, List.take_append_drop]
  refine ⟨as.take start, as.slice start n, bs.slice start n, as.drop (start + n), (hparts as).symm,
    ?_, ?_, ?_, ?_⟩
  · rw [h.front, h.behind, hparts bs]
  · simp only [slice, List.length_take, List.length_drop, h.length]
  · rw [slice, List.length_take]
    exact Nat.min_le_left ..
  · intro heq
    apply h.ne
    rw [← hparts as, ← hparts bs, h.front, h.behind, heq]

theorem checksum_ne (h : DiffersWithin start n as bs) (hn : n ≤ 4) :
    Checksum.Crc32.checksum as ≠ Checksum.Crc32.checksum bs := by
  obtain ⟨front, xs, ys, rest, rfl, rfl, hl, hfew, hne⟩ := h.exists_parts
  exact Checksum.Crc32.checksum_ne hl (Nat.le_trans hfew hn) hne

end DiffersWithin
end Bytes

namespace BlockHeader

/-- A block is refused where its checksum is another one than it carries. -/
theorem decode_mismatch {raw : Bytes} {h : BlockHeader} (hread : readFields raw = .ok h)
    (hfits : h.lengthFits raw.length = true) (hc : h.isChecksummed = true)
    (hne : checksumOf h.layout (raw.take h.length.toNat) ≠ h.checksum) :
    decode true raw = .error (.checksumMismatch h.number h.checksum
      (checksumOf h.layout (raw.take h.length.toNat))) := by
  have hlong : ¬ raw.length < minHeaderLength := by
    have hmin : 16 ≤ h.headerLength := HeaderLayout.headerLength_pos ..
    simp only [lengthFits, Bool.and_eq_true, decide_eq_true_eq] at hfits
    rw [minHeaderLength]
    omega
  simp only [decode, if_neg hlong, hread, bind, Except.bind, hfits, hc, Bool.not_true,
    Bool.false_eq_true, if_false, Bool.and_self, if_true]
  rw [if_neg (by simpa using hne)]

/-- In the layouts that always carry a check, the tag tells everything about the header but what its
words hold. -/
theorem readFields_of_tag {layout : HeaderLayout} (always : layout.alwaysChecksummed = true)
    {raw : Bytes} (htag : raw.slice 12 4 = layout.tag) :
    ∃ session, readFields raw = .ok ⟨layout, .checksum, Bytes.toUInt32 (raw.slice 4 4),
      Bytes.toUInt32 (raw.slice 8 4), session, (Bytes.toUInt32 (raw.take 4)).toUInt64⟩ := by
  simp only [readFields, htag, HeaderLayout.ofTag?_tag, readOptions, always, if_true, bind,
    Except.bind]
  exact ⟨_, rfl⟩

section Written
variable {h : BlockHeader} {payload : Bytes}

/-- The fields of a header are found in the block that was written with it. -/
theorem isRead_encode
    (ho : h.layout.alwaysChecksummed = true ∨ BlockOptions.ofBits? h.options.bits = some h.options) :
    IsRead (h.encode payload).2 (h.encode payload).1 :=
  isRead_of_readFields (readFields_toBytes (isProper_complete h payload ho) payload)

theorem checksumOf_encode (hc : h.isChecksummed = true) :
    checksumOf h.layout (h.encode payload).2 = (h.encode payload).1.checksum := by
  have hwritten : (h.complete payload).isChecksummed = true := by rw [isChecksummed_complete, hc]
  have hsum := checksumOf_toBytes (h.complete payload) hwritten payload
  rw [layout_complete] at hsum
  exact hsum.trans (checksum_complete h payload hwritten).symm

theorem toNat_length_encode (hl : h.headerLength + payload.length ≤ maxBlockLength) :
    (h.encode payload).1.length.toNat = h.headerLength + payload.length := by
  rw [encode, length_complete, headerLength_complete, Nat.toUInt32, UInt32.toNat_ofNat']
  exact Nat.mod_eq_of_lt (by rw [maxBlockLength] at hl; omega)

end Written

theorem checksumOf_always {layout : HeaderLayout} (always : layout.alwaysChecksummed = true)
    (block : Bytes) :
    checksumOf layout block = (Checksum.Crc32.checksum (block.drop 4)).toUInt64 := by
  cases layout with
  | bb01 | bb02 => rfl
  | bb03 => cases always

/-- In the layouts that always carry a check, damage in few octets behind the check changes it. -/
theorem checksumOf_ne {layout : HeaderLayout} (always : layout.alwaysChecksummed = true)
    {start n : Nat} {block damaged : Bytes} (hd : Bytes.DiffersWithin start n block damaged)
    (hn : n ≤ 4) (hbehind : 4 ≤ start) : checksumOf layout damaged ≠ checksumOf layout block := by
  have hcrc := (hd.drop hbehind).checksum_ne hn
  rw [checksumOf_always always, checksumOf_always always, Ne, UInt32.toUInt64_inj]
  exact hcrc.symm

/-- Damage in at most four octets of a block that always carries a check, in its number or behind its
tag, is told from the check. The block number that is told is the one that is read now. -/
theorem decode_burst {h : BlockHeader} (always : h.layout.alwaysChecksummed = true)
    {payload : Bytes} (hl : h.headerLength + payload.length ≤ maxBlockLength) {start n : Nat}
    (hn : n ≤ 4) (hwindow : 8 ≤ start ∧ start + n ≤ 12 ∨ 16 ≤ start) {damaged : Bytes}
    (hd : Bytes.DiffersWithin start n (h.encode payload).2 damaged) (padding : Bytes) :
    decode true (damaged ++ padding) = .error (.checksumMismatch
      (Bytes.toUInt32 (damaged.slice 8 4)) (h.encode payload).1.checksum
      (checksumOf h.layout damaged)) := by
  have hlayout : (h.encode payload).1.layout = h.layout := layout_complete h payload
  have hmin : 16 ≤ h.headerLength := HeaderLayout.headerLength_pos ..
  have hlong : damaged.length = h.headerLength + payload.length := by
    rw [← hd.length, length_encode]
  have hr := @isRead_encode h payload (.inl always)
  have hkept {i m : Nat} (ho : i + m ≤ 8 ∨ 12 ≤ i ∧ i + m ≤ 16) :
      (damaged ++ padding).slice i m = (h.encode payload).2.slice i m := by
    rw [hd.slice_eq (by omega), Bytes.slice_append_left (by omega)]
  have htag : (damaged ++ padding).slice 12 4 = h.layout.tag := by
    rw [hkept (by omega), hr.tag, hlayout]
  have hlength : Bytes.toUInt32 ((damaged ++ padding).slice 4 4) = (h.encode payload).1.length := by
    rw [hkept (by omega), hr.length]
  have hstored : (Bytes.toUInt32 ((damaged ++ padding).take 4)).toUInt64
      = (h.encode payload).1.checksum := by
    have hlead := hkept (i := 0) (m := 4) (by omega)
    rw [Bytes.slice, Bytes.slice, List.drop_zero, List.drop_zero] at hlead
    rw [hlead, hr.checksum, hlayout, if_pos always]
  have hnumber : (damaged ++ padding).slice 8 4 = damaged.slice 8 4 :=
    Bytes.slice_append_left (by omega) padding
  obtain ⟨session, hread⟩ := readFields_of_tag always htag
  rw [hlength, hstored, hnumber] at hread
  have hblock : (damaged ++ padding).take (h.encode payload).1.length.toNat = damaged :=
    List.take_left' (by rw [toNat_length_encode hl, hlong])
  have hfits : lengthFits ⟨h.layout, .checksum, (h.encode payload).1.length,
      Bytes.toUInt32 (damaged.slice 8 4), session, (h.encode payload).1.checksum⟩
        (damaged ++ padding).length = true := by
    have hheader : h.layout.headerLength .checksum = h.headerLength := by
      simp [headerLength, HeaderLayout.headerLength, always]
    simp only [lengthFits, toNat_length_encode hl, List.length_append, hlong, Bool.and_eq_true,
      decide_eq_true_eq]
    exact ⟨⟨by rw [← hheader]; exact Nat.le_add_right .., hl⟩, Nat.le_add_right ..⟩
  have hrefused := decode_mismatch hread hfits (isChecksummed_of_always always) (by
    rw [hblock, ← checksumOf_encode (isChecksummed_of_always always)]
    exact checksumOf_ne always hd hn (by omega))
  rwa [hblock] at hrefused

/-- In the first two layouts any change of at most four consecutive octets, in the block number or
behind the tag, is refused as a mismatch of the checksum, whatever follows the block; and so is one
inverted bit of the payload, with the number of the block. -/
theorem detects_bursts {h : BlockHeader} (hlayout : h.layout = .bb01 ∨ h.layout = .bb02)
    {payload : Bytes} (hl : h.headerLength + payload.length ≤ maxBlockLength) (padding : Bytes) :
    (∀ (start n : Nat) (damaged : Bytes), n ≤ 4 → (8 ≤ start ∧ start + n ≤ 12 ∨ 16 ≤ start) →
      Bytes.DiffersWithin start n (h.encode payload).2 damaged →
      decode true (damaged ++ padding) = .error (.checksumMismatch
        (Bytes.toUInt32 (damaged.slice 8 4)) (h.encode payload).1.checksum
        (checksumOf h.layout damaged))) ∧
    ∀ i bit : Nat, h.headerLength ≤ i → i < (h.encode payload).2.length → bit < 8 →
      decode true ((h.encode payload).2.flip i bit ++ padding) = .error (.checksumMismatch
        h.number (h.encode payload).1.checksum
        (checksumOf h.layout ((h.encode payload).2.flip i bit))) := by
  have always : h.layout.alwaysChecksummed = true := by
    rcases hlayout with hbb01 | hbb02
    · rw [hbb01]; rfl
    · rw [hbb02]; rfl
  constructor
  · intro start n damaged hn hwindow hd
    exact decode_burst always hl hn hwindow hd padding
  · intro i bit hpayload hi hbit
    have hmin : 16 ≤ h.headerLength := HeaderLayout.headerLength_pos ..
    have hd := Bytes.differsWithin_flip hi hbit
    have hnumber : Bytes.toUInt32 (((h.encode payload).2.flip i bit).slice 8 4) = h.number := by
      rw [← hd.slice_eq (by omega), ← (isRead_encode (.inl always)).number]
      exact number_complete h payload
    rw [← hnumber]
    exact decode_burst always hl (by decide) (.inr (by omega)) hd padding

/-- Four octets of a payload that are zeroed, and the bit of another one that is inverted. -/
theorem detects_bursts_zeroed :
    let h : BlockHeader := ⟨.bb02, .checksum, 0, 42, ⟨7, 9⟩, 0⟩
    let payload : Bytes := [1, 2, 3, 4, 5]
    let block := (h.encode payload).2
    let zeroed := block.take 24 ++ ([0, 0, 0, 0] ++ block.drop 28)
    (h.layout = .bb01 ∨ h.layout = .bb02) ∧ h.headerLength + payload.length ≤ maxBlockLength ∧
      Bytes.DiffersWithin 24 4 block zeroed ∧
      decode true (zeroed ++ [0]) = .error (.checksumMismatch (Bytes.toUInt32 (zeroed.slice 8 4))
        (h.encode payload).1.checksum (checksumOf .bb02 zeroed)) ∧
      decode true (block.flip 28 0 ++ [0]) = .error (.checksumMismatch 42
        (h.encode payload).1.checksum (checksumOf .bb02 (block.flip 28 0))) := by
  intro h payload block zeroed
  have hlayout : h.layout = .bb01 ∨ h.layout = .bb02 := .inr rfl
  have hl : h.headerLength + payload.length ≤ maxBlockLength := by decide
  have hd : Bytes.DiffersWithin 24 4 block zeroed :=
    ⟨by decide +kernel, by decide +kernel, by decide +kernel, by decide +kernel⟩
  obtain ⟨hbursts, hbits⟩ := detects_bursts hlayout hl [0]
  exact ⟨hlayout, hl, hd, hbursts 24 4 zeroed (by decide) (by decide) hd,
    hbits 28 0 (by decide) (by decide +kernel) (by decide)⟩

end BlockHeader
end BackupVolume
