import BackupVolume.Proofs.Block.Format

/-! # What is read was written

The header and the payload that reading returns are written as the same octets again: nothing else
is accepted.
-/
namespace BackupVolume

theorem HeaderLayout.eq_tag_of_ofTag? {t : Bytes} {l : HeaderLayout} (h : ofTag? t = some l) :
    t = l.tag := by
  have hfound := List.find?_some h
  exact (beq_iff_eq.mp hfound).symm

theorem BlockOptions.eq_of_ofBits? {w : UInt32} {o : BlockOptions} (h : ofBits? w = some o) :
    o = ⟨w⟩ := by
  rw [ofBits?] at h
  split at h
  · exact (Option.some.inj h).symm
  · cases h

theorem HeaderLayout.fixedLength_le (l : HeaderLayout) (o : BlockOptions) :
    l.fixedLength ≤ l.headerLength o := by
  rw [headerLength]
  split <;> omega

namespace BlockHeader

section Read
variable {raw : Bytes} {h : BlockHeader}

structure IsRead (raw : Bytes) (h : BlockHeader) : Prop where
  tag : raw.slice 12 4 = h.layout.tag
  length : h.length = Bytes.toUInt32 (raw.slice 4 4)
  number : h.number = Bytes.toUInt32 (raw.slice 8 4)
  session : h.session = if h.layout.hasSession then
    ⟨Bytes.toUInt32 (raw.slice 16 4), Bytes.toUInt32 (raw.slice 20 4)⟩ else {}
  options : readOptions h.layout (Bytes.toUInt32 (raw.take 4)) = .ok h.options
  checksum : h.checksum = if h.layout.alwaysChecksummed then (Bytes.toUInt32 (raw.take 4)).toUInt64
    else if h.options.contains .checksum then Bytes.toUInt64 (raw.slice 24 8) else 0

theorem isRead_of_readFields (hr : readFields raw = .ok h) : IsRead raw h := by
  rw [readFields] at hr
  rcases htag : HeaderLayout.ofTag? (raw.slice 12 4) with _ | layout
  · simp only [htag] at hr
    cases hr
  · simp only [htag, bind, Except.bind] at hr
    rcases ho : readOptions layout (Bytes.toUInt32 (raw.take 4)) with e | options
    · simp only [ho] at hr
      cases hr
    · simp only [ho, pure, Except.pure, Except.ok.injEq] at hr
      subst hr
      exact ⟨HeaderLayout.eq_tag_of_ofTag? htag, rfl, rfl, rfl, ho, rfl⟩

theorem IsRead.isProper (hr : IsRead raw h) : h.IsProper := by
  have ho := hr.options
  refine ⟨?_, fun hs => by rw [hr.session, hs]; rfl, ?_⟩
  · rw [readOptions] at ho
    split
    · next always =>
      rw [if_pos always] at ho
      exact (Except.ok.inj ho).symm
    · next sometimes =>
      rw [if_neg sometimes] at ho
      split at ho
      · next known =>
        rw [← Except.ok.inj ho, BlockOptions.eq_of_ofBits? known]
        rw [BlockOptions.eq_of_ofBits? known] at known
        exact known
      · cases ho
  · rw [hr.checksum]
    split
    · simp
    · next sometimes =>
      intro hc
      have hnot : h.options.contains .checksum = false := by
        simpa [isChecksummed, HeaderLayout.isChecksummed, sometimes] using hc
      simp [hnot]

theorem IsRead.fixedFields_eq (hr : IsRead raw h) (hlong : h.layout.fixedLength ≤ raw.length) :
    h.fixedFields = raw.slice 4 (h.layout.fixedLength - 4) := by
  have hword {i : Nat} (hi : i + 4 ≤ h.layout.fixedLength) :
      Bytes.ofUInt32 (Bytes.toUInt32 (raw.slice i 4)) = raw.slice i 4 :=
    Bytes.ofUInt32_toUInt32 (Bytes.length_slice (by omega))
  have htwelve : 16 ≤ h.layout.fixedLength := by cases h.layout <;> decide
  have htag := raw.slice_append_slice 4 4 8
  have hnumber := raw.slice_append_slice 8 4 4
  rw [fixedFields, hr.length, hr.number, hr.session, hword (by omega), hword (by omega), ← hr.tag]
  cases hl : h.layout with
  | bb01 =>
    simp only [HeaderLayout.hasSession, HeaderLayout.fixedLength, Bool.false_eq_true, if_false,
      List.append_nil]
    rw [hnumber, htag]
  | bb02 | bb03 =>
    rw [hl, HeaderLayout.fixedLength] at hword
    simp only [HeaderLayout.hasSession, HeaderLayout.fixedLength, if_true]
    rw [hword (by omega), hword (by omega), raw.slice_append_slice 16 4 4,
      raw.slice_append_slice 12 4 8, raw.slice_append_slice 8 4 12, raw.slice_append_slice 4 4 16]

/-- Where the options are not fixed, they are the word in front. -/
theorem IsRead.options_eq (hr : IsRead raw h) (ha : ¬ h.layout.alwaysChecksummed = true) :
    h.options = ⟨Bytes.toUInt32 (raw.take 4)⟩ := by
  have ho := hr.options
  rw [readOptions, if_neg ha] at ho
  split at ho
  · next known =>
    rw [← Except.ok.inj ho, BlockOptions.eq_of_ofBits? known]
  · cases ho

/-- A header that was read is written as the octets it was read from. -/
theorem IsRead.toBytes_eq (hr : IsRead raw h) (hlong : h.headerLength ≤ raw.length) :
    h.toBytes = raw.take h.headerLength := by
  have hfixed : h.layout.fixedLength ≤ h.headerLength := h.layout.fixedLength_le h.options
  have hfour : 4 ≤ h.layout.fixedLength := by cases h.layout <;> decide
  have hfields := hr.fixedFields_eq (Nat.le_trans hfixed hlong)
  have hlead : Bytes.ofUInt32 (Bytes.toUInt32 (raw.take 4)) = raw.take 4 :=
    Bytes.ofUInt32_toUInt32 (by rw [List.length_take]; omega)
  have hfront : raw.take 4 ++ h.fixedFields = raw.take h.layout.fixedLength := by
    rw [hfields, Bytes.take_append_slice, Nat.add_sub_cancel' hfour]
  rw [toBytes]
  by_cases ha : h.layout.alwaysChecksummed = true
  · have hlen : h.headerLength = h.layout.fixedLength := by
      simp [headerLength, HeaderLayout.headerLength, ha]
    rw [if_pos ha, hr.checksum, if_pos ha, hlen, ← hfront]
    simp [hlead]
  · have hbits : h.options.bits = Bytes.toUInt32 (raw.take 4) := by rw [hr.options_eq ha]
    rw [if_neg ha, hbits, hlead, ← List.append_assoc, hfront]
    by_cases hc : h.options.contains .checksum = true
    · have hlen : h.headerLength = h.layout.fixedLength + 8 := by
        simp [headerLength, HeaderLayout.headerLength, ha, hc]
      have hplace : h.layout.fixedLength = 24 := by
        cases hl : h.layout with
        | bb01 | bb02 => simp [hl, HeaderLayout.alwaysChecksummed] at ha
        | bb03 => rfl
      have hsum : Bytes.ofUInt64 (Bytes.toUInt64 (raw.slice 24 8)) = raw.slice 24 8 :=
        Bytes.ofUInt64_toUInt64 (Bytes.length_slice (by omega))
      rw [if_pos (isChecksummed_of_contains hc), hr.checksum, if_neg ha, if_pos hc, hsum, hlen,
        hplace, Bytes.take_append_slice]
    · have hlen : h.headerLength = h.layout.fixedLength := by
        simp [headerLength, HeaderLayout.headerLength, hc]
      rw [if_neg (by simp [isChecksummed, HeaderLayout.isChecksummed, hc, ha]), hlen,
        List.append_nil]

end Read

/-- What a block that is read was before it was read. -/
theorem of_decode {verify : Bool} {raw payload : Bytes} {h : BlockHeader}
    (hd : decode verify raw = .ok (h, payload)) :
    readFields raw = .ok h ∧ h.lengthFits raw.length = true ∧
      payload = (raw.take h.length.toNat).drop h.headerLength ∧
      (verify = true → h.isChecksummed = true →
        checksumOf h.layout (raw.take h.length.toNat) = h.checksum) := by
  simp only [decode, bind, Except.bind] at hd
  split at hd
  · cases hd
  · split at hd
    · cases hd
    · next g hg =>
      split at hd
      · cases hd
      · next fits =>
        have hfits : g.lengthFits raw.length = true := by simpa using fits
        split at hd
        · split at hd
          · next same =>
            cases hd
            exact ⟨hg, hfits, rfl, fun _ _ => beq_iff_eq.mp same⟩
          · cases hd
        · next skip =>
          cases hd
          refine ⟨hg, hfits, rfl, fun hv hc => ?_⟩
          simp [hv, hc] at skip

/-- What is read of a block is written as the same octets, with the same header. -/
theorem encode_of_decode {raw payload : Bytes} {h : BlockHeader}
    (hd : decode true raw = .ok (h, payload)) : h.encode payload = (h, raw.take h.length.toNat) := by
  obtain ⟨hfields, hfits, hpayload, hsum⟩ := of_decode hd
  have hread := isRead_of_readFields hfields
  simp only [lengthFits, Bool.and_eq_true, decide_eq_true_eq] at hfits
  obtain ⟨⟨hheader, -⟩, havailable⟩ := hfits
  have hproper := hread.isProper
  have hblock : h.toBytes ++ payload = raw.take h.length.toNat := by
    have hfront : (raw.take h.length.toNat).take h.headerLength = raw.take h.headerLength := by
      rw [List.take_take, Nat.min_eq_left hheader]
    rw [hread.toBytes_eq (Nat.le_trans hheader havailable), hpayload, ← hfront,
      List.take_append_drop]
  have hlength : (h.headerLength + payload.length).toUInt32 = h.length := by
    have hp : payload.length = h.length.toNat - h.headerLength := by
      rw [hpayload, List.length_drop, List.length_take, Nat.min_eq_left havailable]
    rw [hp, Nat.add_sub_cancel' hheader, Nat.toUInt32, UInt32.ofNat_toNat]
  have houtline : h.outline payload = { h with checksum := 0 } := by
    have ho := hproper.options
    have hoptions : (if h.layout.alwaysChecksummed then .checksum else h.options) = h.options := by
      split
      · next always => exact ((if_pos always).mp ho).symm
      · rfl
    have hsession : (if h.layout.hasSession then h.session else {}) = h.session := by
      split
      · rfl
      · next without => exact (hproper.session (by simpa using without)).symm
    rw [headerLength] at hlength
    rw [outline, hoptions, hsession, hlength]
  have hcomplete : h.complete payload = h := by
    have hchecksum : (if h.isChecksummed then checksumOf h.layout (h.unchecked ++ payload) else 0)
        = h.checksum := by
      by_cases hc : h.isChecksummed = true
      · rw [if_pos hc, ← checksumOf_toBytes h hc, hblock]
        exact hsum rfl hc
      · have hnot : h.layout.alwaysChecksummed = false ∧ h.options.contains .checksum = false := by
          simpa [isChecksummed, HeaderLayout.isChecksummed] using hc
        rw [if_neg hc, hread.checksum, if_neg (by simp [hnot.1]), if_neg (by simp [hnot.2])]
    rw [complete_eq_outline, houtline]
    change { h with checksum := if h.isChecksummed then _ else 0 } = h
    exact congrArg (fun c => { h with checksum := c }) hchecksum
  rw [encode, hcomplete, hblock]

/-- A written block is read as what was written; where its length could not be told, only some of
the payload is found. -/
theorem eq_of_decode_encode {verify : Bool} {h g : BlockHeader} {payload rest : Bytes}
    (ho : h.layout.alwaysChecksummed = true ∨ BlockOptions.ofBits? h.options.bits = some h.options)
    (hd : decode verify (h.encode payload).2 = .ok (g, rest)) :
    g = (h.encode payload).1 ∧ ∃ n, rest = payload.take n := by
  obtain ⟨hfields, -, hrest, -⟩ := of_decode hd
  have hwritten := readFields_toBytes (isProper_complete h payload ho) payload
  have hg : g = h.complete payload := by
    rw [encode, hwritten] at hfields
    exact (Except.ok.inj hfields).symm
  subst hg
  refine ⟨rfl, (h.complete payload).length.toNat - (h.complete payload).headerLength, ?_⟩
  rw [hrest, List.drop_take, encode, List.drop_left' (length_toBytes _)]

end BlockHeader
end BackupVolume
