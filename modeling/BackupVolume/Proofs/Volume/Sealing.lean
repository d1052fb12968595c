import BackupVolume.Proofs.Block.Packing
import BackupVolume.Volume.Reader
import BackupVolume.Volume.Writer

/-! # Blocks of a writer are read back

The block that a writer hands to its sink is loaded again with the key of the writer, and the
record area is the one that was filled. Without the key a block is either refused or the same.
-/
namespace BackupVolume

/-- The options that a writer gives to its blocks keep the header as long as it was planned. -/
structure BlockOptions.Suits (o base : BlockOptions) : Prop where
  known : BlockOptions.ofBits? o.bits = some o
  headerLength : HeaderLayout.bb03.headerLength o = HeaderLayout.bb03.headerLength base

namespace VolumeWriter
variable {κ : Type}

/-- A writer whose draft fits into a block, with room for at least one octet of a record. -/
structure IsSound (w : VolumeWriter κ) : Prop where
  layout : w.draft.layout = .bb03
  options : w.draft.options = .none ∨ w.draft.options = .checksum
  room : HeaderLayout.bb03.recordHeaderLength < w.draft.capacity
  bound : HeaderLayout.bb03.headerLength w.draft.options
    + (if w.key.isSome then VolumeKey.overhead else 0) + w.draft.capacity ≤ maxBlockLength
  used : w.draft.used ≤ w.draft.capacity

theorem isSound_create (sink : κ) {blockSize : Nat} (hb : blockSize ≤ maxBlockLength)
    (session : Session) (checksums : Bool) (key : Option VolumeKey) (nonce : Nonce) :
    (create sink blockSize session checksums key nonce).IsSound := by
  obtain ⟨options, ho, hopt⟩ : ∃ o, (if checksums then BlockOptions.checksum else .none) = o ∧
      (o = .none ∨ o = .checksum) := by
    cases checksums
    · exact ⟨_, rfl, .inl rfl⟩
    · exact ⟨_, rfl, .inr rfl⟩
  have hheader : HeaderLayout.bb03.headerLength options ≤ 32 := by
    rcases hopt with rfl | rfl <;> decide
  have hoverhead : (if key.isSome then VolumeKey.overhead else 0) ≤ 28 := by
    split <;> decide
  refine ⟨rfl, by rw [create, ho]; exact hopt, ?_, ?_, Nat.zero_le _⟩
  · simp only [create, capacityOf, ho]
    omega
  · simp only [create, capacityOf, ho, HeaderLayout.recordHeaderLength, maxBlockLength] at *
    omega

theorem Writes.suits {w : VolumeWriter κ} {o : BlockOptions} {payload : Bytes}
    (h : w.Writes o payload) (hw : w.IsSound) : o.Suits w.draft.options := by
  rcases hw.options with hplain | hplain <;> cases h <;> rw [hplain] <;>
    exact ⟨by decide, by decide⟩

/-- Sealed or not, the record area fits into a block behind its header. -/
theorem Writes.length_le {w : VolumeWriter κ} {o : BlockOptions} {payload : Bytes}
    (h : w.Writes o payload) (hw : w.IsSound) :
    HeaderLayout.bb03.headerLength o + payload.length ≤ maxBlockLength := by
  have hused : w.draft.payload.length = w.draft.used := Array.length_toList
  have hb := hw.bound
  have hu := hw.used
  rw [(h.suits hw).headerLength]
  cases h with
  | keyless => omega
  | labels => omega
  | sealed hk _ hsealed =>
    simp only [hk, Option.isSome_some, if_true] at hb
    rw [VolumeKey.length_encrypt hsealed]
    omega

/-- A block that fits its limits is short enough to be sealed. -/
theorem IsSound.block_ok {w : VolumeWriter κ} (h : w.IsSound) : ∃ raw, w.block = .ok raw := by
  have hbound := h.bound
  have hused := h.used
  refine VolumeWriter.block_ok ?_
  rw [Cipher.Gcm.maxLength]
  rw [maxBlockLength] at hbound
  omega

/-- What a reader makes of a payload behind a header with these options. -/
theorem Writes.load {w : VolumeWriter κ} {o : BlockOptions} {payload : Bytes}
    (h : w.Writes o payload) (hw : w.IsSound) {header : BlockHeader}
    (hoptions : header.options = o) (hnumber : header.number = w.draft.number)
    (hsession : header.session = w.draft.session) {verify : Bool} (raw : RawBlock)
    (hdecode : LoadedBlock.decode verify raw.address raw.bytes
      = .ok ⟨header, raw.address, payload⟩) :
    let b : LoadedBlock := ⟨header, raw.address, w.draft.payload⟩
    LoadedBlock.load verify w.key raw = .ok b ∧
      (LoadedBlock.load verify none raw = .ok b ∨
        LoadedBlock.load verify none raw = .error (.crypto .missingKey)) := by
  intro b
  simp only [LoadedBlock.load, hdecode, hoptions]
  have hopen {o' : BlockOptions} (h : o' = w.draft.options ∨
      o' = w.draft.options.union .volumeSealed) : o'.contains .blockSealed = false := by
    rcases hw.options with hplain | hplain <;> rw [hplain] at h <;>
      rcases h with rfl | rfl <;> decide
  cases h with
  | keyless =>
    simp only [hopen (.inl rfl), Bool.false_eq_true, if_false]
    exact ⟨rfl, .inl rfl⟩
  | labels =>
    simp only [hopen (.inr rfl), Bool.false_eq_true, if_false]
    exact ⟨rfl, .inl rfl⟩
  | sealed hk _ hsealed =>
    have hclosed : ((w.draft.options.union .volumeSealed).union .blockSealed).contains
        .blockSealed = true := by
      rcases hw.options with h | h <;> rw [h] <;> decide
    simp only [hclosed, if_true, hk, LoadedBlock.number, LoadedBlock.session, hnumber, hsession,
      VolumeKey.decrypt_of_encrypt hsealed]
    exact ⟨rfl, .inr trivial⟩

/-- The block of a writer is loaded again; without the key it may be refused. -/
theorem load_block {w : VolumeWriter κ} (hw : w.IsSound) {raw : Bytes} (hraw : w.block = .ok raw)
    (verify : Bool) (address : Nat) :
    ∃ b, LoadedBlock.load verify w.key ⟨address, raw⟩ = .ok b ∧
      b.layout = .bb03 ∧ b.session = w.draft.session ∧ b.number = w.draft.number ∧
      b.rest = w.draft.payload ∧
      (LoadedBlock.load verify none ⟨address, raw⟩ = .ok b ∨
        LoadedBlock.load verify none ⟨address, raw⟩ = .error (.crypto .missingKey)) := by
  obtain ⟨o, payload, hwrites, rfl⟩ := writes_of_block hraw
  have hsuits := hwrites.suits hw
  obtain ⟨h, hh⟩ : ∃ h, w.headerWith o = h := ⟨_, rfl⟩
  have hlayout : h.layout = .bb03 := by rw [← hh, headerWith]
  have hoptions : (h.encode payload).1.options = o := by
    rw [BlockHeader.encode, BlockHeader.options_complete, hlayout, ← hh]
    rfl
  have hsize : (h.encode payload).1.headerLength + payload.length ≤ maxBlockLength := by
    rw [BlockHeader.headerLength, hoptions, BlockHeader.encode, BlockHeader.layout_complete, hlayout]
    exact hwrites.length_le hw
  have hdecode : LoadedBlock.decode verify address (h.encode payload).2
      = .ok ⟨(h.encode payload).1, address, payload⟩ :=
    LoadedBlock.decode_encode verify address (.inr (by rw [← hh]; exact hsuits.known)) hsize
  have hnumber : (h.encode payload).1.number = w.draft.number := by
    rw [BlockHeader.encode, BlockHeader.number_complete, ← hh]
    rfl
  have hsession : (h.encode payload).1.session = w.draft.session := by
    rw [BlockHeader.encode, BlockHeader.session_complete, hlayout, ← hh]
    rfl
  rw [hh]
  obtain ⟨hload, hnone⟩ := hwrites.load hw hoptions hnumber hsession ⟨address, _⟩ hdecode
  exact ⟨_, hload, (BlockHeader.layout_complete h payload).trans hlayout, hsession, hnumber, rfl,
    hnone⟩

end VolumeWriter
end BackupVolume
