import BackupVolume.Block.Header

/-! # Written blocks are read back

The header that a block was given is found again, with its payload, whatever follows the block.
This holds in all three layouts, with and without a checksum.
-/
namespace BackupVolume.BlockHeader

/-- A header that reading can return: its options mean something, and what the layout has no room
for is empty. -/
structure IsProper (h : BlockHeader) : Prop where
  options : if h.layout.alwaysChecksummed then h.options = .checksum
    else BlockOptions.ofBits? h.options.bits = some h.options
  session : h.layout.hasSession = false → h.session = {}
  checksum : if h.layout.alwaysChecksummed then h.checksum.toUInt32.toUInt64 = h.checksum
    else h.isChecksummed = false → h.checksum = 0

theorem isChecksummed_of_contains {h : BlockHeader} (hc : h.options.contains .checksum = true) :
    h.isChecksummed = true := by
  rw [isChecksummed, HeaderLayout.isChecksummed, hc, Bool.or_true]

theorem isChecksummed_of_always {h : BlockHeader} (always : h.layout.alwaysChecksummed = true) :
    h.isChecksummed = true := by
  rw [isChecksummed, HeaderLayout.isChecksummed, always, Bool.true_or]

theorem length_toBytes (h : BlockHeader) : h.toBytes.length = h.headerLength := by
  obtain ⟨layout, options, length, number, session, checksum⟩ := h
  cases layout <;>
    simp [toBytes, fixedFields, headerLength, HeaderLayout.headerLength, isChecksummed,
      HeaderLayout.isChecksummed, HeaderLayout.alwaysChecksummed, HeaderLayout.hasSession,
      HeaderLayout.fixedLength]
  split <;> simp_all

theorem readFields_toBytes {h : BlockHeader} (hp : h.IsProper) (rest : Bytes) :
    readFields (h.toBytes ++ rest) = .ok h := by
  obtain ⟨layout, options, length, number, session, checksum⟩ := h
  obtain ⟨ho, hs, hc⟩ := hp
  cases layout with
  | bb01 =>
    simp [toBytes, fixedFields, readFields, Bytes.slice, List.drop_append,
      HeaderLayout.alwaysChecksummed, HeaderLayout.hasSession, List.drop_of_length_le,
      HeaderLayout.ofTag?_tag, readOptions] at ho hs hc ⊢
    simp [ho, hs, hc, Functor.map, Except.map]
  | bb02 =>
    simp [toBytes, fixedFields, readFields, Bytes.slice, List.drop_append,
      HeaderLayout.alwaysChecksummed, HeaderLayout.hasSession, List.drop_of_length_le,
      HeaderLayout.ofTag?_tag, readOptions] at ho hc ⊢
    simp [ho, hc, Functor.map, Except.map]
  | bb03 =>
    simp [toBytes, fixedFields, readFields, Bytes.slice, List.drop_append, List.take_append,
      HeaderLayout.alwaysChecksummed, HeaderLayout.hasSession, List.drop_of_length_le,
      HeaderLayout.ofTag?_tag, readOptions, isChecksummed,
      HeaderLayout.isChecksummed] at ho hc ⊢
    simp only [ho, Functor.map, Except.map]
    by_cases h : options.contains BlockOptions.checksum
    · simp [h, List.take_of_length_le]
    · simp [h, hc (by simpa using h)]

/-- The checksum does not depend on the place where it is stored. -/
theorem checksumOf_toBytes (h : BlockHeader) (hc : h.isChecksummed = true) (payload : Bytes) :
    checksumOf h.layout (h.toBytes ++ payload) = checksumOf h.layout (h.unchecked ++ payload) := by
  obtain ⟨layout, options, length, number, session, checksum⟩ := h
  cases layout with
  | bb01 =>
    simp [checksumOf, toBytes, unchecked, HeaderLayout.alwaysChecksummed, headerLength,
      HeaderLayout.headerLength]
  | bb02 =>
    simp [checksumOf, toBytes, unchecked, HeaderLayout.alwaysChecksummed, headerLength,
      HeaderLayout.headerLength]
  | bb03 =>
    have ho : options.contains .checksum = true := by
      simpa [isChecksummed, HeaderLayout.isChecksummed, HeaderLayout.alwaysChecksummed] using hc
    simp [checksumOf, toBytes, unchecked, HeaderLayout.alwaysChecksummed, fixedFields, hc,
      HeaderLayout.hasSession, headerLength, HeaderLayout.headerLength, HeaderLayout.fixedLength,
      ho, List.take_append, List.drop_append, List.drop_of_length_le, List.take_of_length_le]

section Complete
variable (h : BlockHeader) (payload : Bytes)

def outline : BlockHeader :=
  let options := if h.layout.alwaysChecksummed then .checksum else h.options
  { layout := h.layout
    options
    length := (h.layout.headerLength options + payload.length).toUInt32
    number := h.number
    session := if h.layout.hasSession then h.session else {}
    checksum := 0 }

theorem complete_eq_outline :
    h.complete payload = { h.outline payload with
      checksum := if (h.outline payload).isChecksummed
        then checksumOf h.layout ((h.outline payload).unchecked ++ payload) else 0 } := by
  change (if (h.outline payload).isChecksummed = true then
      { h.outline payload with
        checksum := checksumOf h.layout ((h.outline payload).unchecked ++ payload) }
    else h.outline payload) = _
  by_cases hc : (h.outline payload).isChecksummed = true
  · rw [if_pos hc, if_pos hc]
  · rw [if_neg hc, if_neg hc]
    rfl

@[simp] theorem layout_complete : (h.complete payload).layout = h.layout := by
  rw [complete_eq_outline]; rfl

@[simp] theorem number_complete : (h.complete payload).number = h.number := by
  rw [complete_eq_outline]; rfl

theorem session_complete :
    (h.complete payload).session = if h.layout.hasSession then h.session else {} := by
  rw [complete_eq_outline]; rfl

theorem options_complete :
    (h.complete payload).options = if h.layout.alwaysChecksummed then .checksum else h.options := by
  rw [complete_eq_outline]; rfl

theorem length_complete :
    (h.complete payload).length = ((h.complete payload).headerLength + payload.length).toUInt32 := by
  rw [complete_eq_outline]; rfl

theorem isChecksummed_outline : (h.outline payload).isChecksummed = h.isChecksummed := by
  rw [outline, isChecksummed, isChecksummed]
  cases h.layout <;> rfl

theorem isChecksummed_complete : (h.complete payload).isChecksummed = h.isChecksummed := by
  rw [complete_eq_outline]
  exact h.isChecksummed_outline payload

theorem complete_of_not (hc : h.isChecksummed = false) : h.complete payload = h.outline payload := by
  rw [complete_eq_outline, if_neg (by rw [isChecksummed_outline, hc]; decide)]
  rfl

theorem checksum_complete (hc : (h.complete payload).isChecksummed = true) :
    (h.complete payload).checksum
      = checksumOf h.layout ((h.complete payload).unchecked ++ payload) := by
  rw [complete_eq_outline] at hc ⊢
  exact if_pos hc

theorem checksum_complete_of_not (hc : (h.complete payload).isChecksummed = false) :
    (h.complete payload).checksum = 0 := by
  rw [isChecksummed_complete] at hc
  rw [complete_of_not h payload hc]
  rfl

theorem headerLength_complete : (h.complete payload).headerLength = h.headerLength := by
  rw [headerLength, headerLength, options_complete, layout_complete]
  cases h.layout <;> rfl

theorem length_encode : (h.encode payload).2.length = h.headerLength + payload.length := by
  rw [encode, List.length_append, length_toBytes, headerLength_complete]

/-- Filling in the length and the checksum gives a proper header. -/
theorem isProper_complete
    (ho : h.layout.alwaysChecksummed = true ∨ BlockOptions.ofBits? h.options.bits = some h.options) :
    (h.complete payload).IsProper := by
  refine ⟨?_, ?_, ?_⟩
  · rw [layout_complete, options_complete]
    split
    · rfl
    · next hn => exact ho.resolve_left (by simpa using hn)
  · intro hs
    rw [layout_complete] at hs
    simp [session_complete, hs]
  · rw [layout_complete]
    split
    · next ha =>
      have hc : (h.complete payload).isChecksummed = true :=
        isChecksummed_of_always (by rw [layout_complete, ha])
      rw [checksum_complete h payload hc]
      cases hl : h.layout with
      | bb01 => simp [checksumOf]
      | bb02 => simp [checksumOf]
      | bb03 => simp [hl, HeaderLayout.alwaysChecksummed] at ha
    · exact checksum_complete_of_not h payload

end Complete

theorem decode_encode {h : BlockHeader} {payload : Bytes} (verify : Bool) (padding : Bytes)
    (ho : h.layout.alwaysChecksummed = true ∨ BlockOptions.ofBits? h.options.bits = some h.options)
    (hl : (h.encode payload).1.headerLength + payload.length ≤ maxBlockLength) :
    decode verify ((h.encode payload).2 ++ padding) = .ok ((h.encode payload).1, payload) := by
  simp only [encode] at hl ⊢
  have hp := isProper_complete h payload ho
  have hlen := length_complete h payload
  have hcheck := checksum_complete h payload
  have hlayout := layout_complete h payload
  generalize h.complete payload = c at hp hlen hcheck hlayout hl ⊢
  have hbytes := length_toBytes c
  have hread := readFields_toBytes hp (payload ++ padding)
  have hsmall : c.length.toNat = c.headerLength + payload.length := by
    rw [hlen, Nat.toUInt32, UInt32.toNat_ofNat']
    exact Nat.mod_eq_of_lt (by rw [maxBlockLength] at hl; omega)
  have hmin : 16 ≤ c.headerLength := HeaderLayout.headerLength_pos ..
  have hblock : (c.toBytes ++ payload ++ padding).take c.length.toNat = c.toBytes ++ payload :=
    List.take_left' (by rw [hsmall, List.length_append, hbytes])
  have hrest : (c.toBytes ++ payload).drop c.headerLength = payload := List.drop_left' hbytes
  have hfits : c.lengthFits (c.toBytes ++ payload ++ padding).length = true := by
    simp only [lengthFits, hsmall, List.length_append, hbytes, Bool.and_eq_true, decide_eq_true_eq]
    omega
  have hlong : ¬ (c.toBytes ++ payload ++ padding).length < minHeaderLength := by
    simp only [List.length_append, hbytes, minHeaderLength]
    omega
  rw [← List.append_assoc] at hread
  simp only [decode, if_neg hlong, hread, bind, Except.bind, hfits, hblock, hrest, Bool.not_true,
    Bool.false_eq_true, if_false]
  by_cases hv : (verify && c.isChecksummed) = true
  · have hc : c.isChecksummed = true := by simp only [Bool.and_eq_true] at hv; exact hv.2
    have hsum : (checksumOf c.layout (c.toBytes ++ payload) == c.checksum) = true := by
      rw [checksumOf_toBytes c hc, hcheck hc, hlayout]
      exact beq_self_eq_true _
    simp only [hv, hsum, if_true]
    rfl
  · rw [if_neg hv]
    rfl

end BackupVolume.BlockHeader
