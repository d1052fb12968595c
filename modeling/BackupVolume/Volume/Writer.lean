import BackupVolume.Block.Draft
import BackupVolume.Device.Sink
import BackupVolume.Failure

/-! # Writing volumes

A writer packs records into blocks and hands every full block to its sink. With a key, the record
area of every block that holds more than labels is sealed. A block that cannot be sealed, or that
the sink refuses, stays with the writer.
-/
namespace BackupVolume

structure VolumeWriter (κ : Type) where
  sink : κ
  draft : DraftBlock
  key : Option VolumeKey
  nonce : Nonce
  blocksWritten : Nat := 0
  bytesWritten : Nat := 0

namespace VolumeWriter
variable {κ : Type}

/-- The room for records in blocks of a size, at least what the smallest record needs. -/
def capacityOf (blockSize : Nat) (options : BlockOptions) (key : Option VolumeKey) : Nat :=
  let overhead := HeaderLayout.bb03.headerLength options
    + if key.isSome then VolumeKey.overhead else 0
  max (blockSize - overhead) (HeaderLayout.bb03.recordHeaderLength + 1)

/-- A writer of blocks that have at most `blockSize` octets as a whole, if the smallest record fits
into that. -/
def create (sink : κ) (blockSize : Nat) (session : Session) (checksums : Bool := true)
    (key : Option VolumeKey := none) (nonce : Nonce := ⟨0⟩) : VolumeWriter κ :=
  let options := if checksums then .checksum else .none
  { sink, key, nonce
    draft := { capacity := capacityOf blockSize options key, session, options } }

def sealedPayload (w : VolumeWriter κ) : Except CryptoError (BlockOptions × Bytes) :=
  let d := w.draft
  match w.key with
  | none => .ok (d.options, d.payload)
  | some k =>
    let options := d.options.union .volumeSealed
    if d.holdsOnlyLabels then .ok (options, d.payload)
    else (k.encrypt w.nonce (VolumeKey.associatedData d.number d.session) d.payload).map fun sealed =>
      (options.union .blockSealed, sealed)

def headerWith (w : VolumeWriter κ) (options : BlockOptions) : BlockHeader :=
  { w.draft.header with layout := .bb03, options }

def block (w : VolumeWriter κ) : Except CryptoError Bytes :=
  w.sealedPayload.map fun (options, payload) => ((w.headerWith options).encode payload).2

/-- A payload as it is written: the record area under the options of its block, sealed if there is
a key and more than labels. -/
inductive Writes (w : VolumeWriter κ) : BlockOptions → Bytes → Prop
  | keyless : w.key = none → Writes w w.draft.options w.draft.payload
  | labels {k : VolumeKey} : w.key = some k → w.draft.holdsOnlyLabels = true →
    Writes w (w.draft.options.union .volumeSealed) w.draft.payload
  | sealed {k : VolumeKey} {sealed : Bytes} : w.key = some k → w.draft.holdsOnlyLabels = false →
    k.encrypt w.nonce (VolumeKey.associatedData w.draft.number w.draft.session) w.draft.payload
      = .ok sealed →
    Writes w ((w.draft.options.union .volumeSealed).union .blockSealed) sealed

section Block
variable {w : VolumeWriter κ}

theorem writes_of_block {raw : Bytes} (h : w.block = .ok raw) :
    ∃ options payload, w.Writes options payload ∧
      raw = ((w.headerWith options).encode payload).2 := by
  rw [block, sealedPayload] at h
  rcases hkey : w.key with _ | k
  · simp only [hkey] at h
    cases h
    exact ⟨_, _, .keyless hkey, rfl⟩
  · simp only [hkey] at h
    split at h
    · next labels =>
      cases h
      exact ⟨_, _, .labels hkey labels, rfl⟩
    · next data =>
      rcases hsealed : k.encrypt w.nonce (VolumeKey.associatedData w.draft.number w.draft.session)
        w.draft.payload with e | sealed
      · simp only [hsealed] at h
        cases h
      · simp only [hsealed] at h
        cases h
        exact ⟨_, _, .sealed hkey (Bool.eq_false_iff.mpr data) hsealed, rfl⟩

/-- A block cannot be written only where there is more to be sealed than the cipher takes at once.
-/
theorem block_error_iff {e : CryptoError} :
    w.block = .error e ↔ e = .encryptionFailed ∧ w.key.isSome = true ∧
      w.draft.holdsOnlyLabels = false ∧ Cipher.Gcm.maxLength < w.draft.used := by
  rw [block, sealedPayload]
  rcases w.key with _ | k
  · simp [Except.map]
  · by_cases hlabels : w.draft.holdsOnlyLabels = true
    · simp [hlabels, Except.map]
    · have hmap {x : Except CryptoError Bytes} {options : BlockOptions} :
          (x.map (Prod.mk options)).map
              (fun (options, payload) => ((w.headerWith options).encode payload).2) = .error e
            ↔ x = .error e := by
        cases x <;> simp [Except.map]
      have hused : w.draft.payload.length = w.draft.used := Array.length_toList
      have hshort : ¬Cipher.Gcm.maxLength < 12 := by decide
      simp only [hlabels, Bool.false_eq_true, if_false, hmap, VolumeKey.encrypt_error_iff, hused,
        VolumeKey.length_associatedData, hshort, or_false, Option.isSome_some, true_and]

theorem block_ok (h : w.draft.used ≤ Cipher.Gcm.maxLength) : ∃ raw, w.block = .ok raw := by
  cases hblock : w.block with
  | ok raw => exact ⟨raw, rfl⟩
  | error e =>
    have hlong := (block_error_iff.mp hblock).2.2.2
    omega

end Block

variable [BlockSink κ]

def flush (w : VolumeWriter κ) : VolumeWriter κ × Except Failure Unit :=
  if w.draft.isEmpty then (w, .ok ())
  else match w.block with
    | .error e => (w, .error (.crypto e))
    | .ok raw =>
      let w := { w with nonce := w.nonce.next }
      match BlockSink.write w.sink raw with
      | (sink, .error e) => ({ w with sink }, .error (.write (BlockSink.name sink) e))
      | (sink, .ok ()) =>
        ({ w with
          sink
          draft := w.draft.reset (w.draft.number + 1)
          blocksWritten := w.blocksWritten + 1
          bytesWritten := w.bytesWritten + raw.length }, .ok ())

/-- All that a flush can do: there is nothing in the block, it cannot be sealed, the sink refuses it,
or the sink takes it. -/
inductive Flushes (w : VolumeWriter κ) : VolumeWriter κ → Except Failure Unit → Prop
  | empty : w.draft.isEmpty = true → Flushes w w (.ok ())
  | unsealed {e : CryptoError} : w.draft.isEmpty = false → w.block = .error e →
    Flushes w w (.error (.crypto e))
  | refused {raw : Bytes} {sink : κ} {fault : IoFault} : w.draft.isEmpty = false →
    w.block = .ok raw → BlockSink.write w.sink raw = (sink, .error fault) →
    Flushes w { w with sink, nonce := w.nonce.next } (.error (.write (BlockSink.name sink) fault))
  | taken {raw : Bytes} {sink : κ} : w.draft.isEmpty = false → w.block = .ok raw →
    BlockSink.write w.sink raw = (sink, .ok ()) →
    Flushes w
      { w with
        sink
        nonce := w.nonce.next
        draft := w.draft.reset (w.draft.number + 1)
        blocksWritten := w.blocksWritten + 1
        bytesWritten := w.bytesWritten + raw.length } (.ok ())

section Flushes
variable {w v : VolumeWriter κ} {x : Except Failure Unit}

theorem Flushes.flush_eq (h : w.Flushes v x) : w.flush = (v, x) := by
  cases h with
  | empty he => rw [flush, if_pos he]
  | unsealed he hblock =>
    rw [flush, if_neg (Bool.eq_false_iff.mp he), hblock]
  | refused he hblock hwrite =>
    rw [flush, if_neg (Bool.eq_false_iff.mp he), hblock]
    simp only [hwrite]
  | taken he hblock hwrite =>
    rw [flush, if_neg (Bool.eq_false_iff.mp he), hblock]
    simp only [hwrite]

theorem flushes (w : VolumeWriter κ) : w.Flushes w.flush.1 w.flush.2 := by
  rcases he : w.draft.isEmpty with _ | _
  · rcases hblock : w.block with e | raw
    · have h := Flushes.unsealed he hblock
      rwa [h.flush_eq]
    · rcases hwrite : BlockSink.write w.sink raw with ⟨sink, fault | ⟨⟨⟩⟩⟩
      · have h := Flushes.refused he hblock hwrite
        rwa [h.flush_eq]
      · have h := Flushes.taken he hblock hwrite
        rwa [h.flush_eq]
  · have h := Flushes.empty he
    rwa [h.flush_eq]

theorem flush_eq_iff : w.flush = (v, x) ↔ w.Flushes v x := by
  refine ⟨fun h => ?_, Flushes.flush_eq⟩
  have hflushes := w.flushes
  rwa [h] at hflushes

theorem isEmpty_of_flush (h : w.flush = (v, .ok ())) : v.draft.isEmpty = true := by
  cases flush_eq_iff.mp h with
  | empty he => exact he
  | taken => exact DraftBlock.isEmpty_reset ..

end Flushes

/-- Packs what is outstanding of a record, and writes every block that gets full. What is left is
returned where a block cannot be written. -/
def store (w : VolumeWriter κ) (o : Outstanding) :
    VolumeWriter κ × Outstanding × Except Failure Unit :=
  match _packed : w.draft.pack o with
  | some (draft, left) =>
    let w := { w with draft }
    match _done : left.isComplete with
    | true => (w, left, .ok ())
    | false =>
      match w.flush with
      | (w, .error e) => (w, left, .error e)
      | (w, .ok ()) => store w left
  | none =>
    match _empty : w.draft.isEmpty with
    | true => (w, o, .error (.config (.noRoomForRecord w.draft.capacity)))
    | false =>
      match _flushed : w.flush with
      | (w, .error e) => (w, o, .error e)
      | (w, .ok ()) => store w o
termination_by (o.rest.length, if w.draft.isEmpty then 0 else 1)
decreasing_by
  · exact Prod.Lex.left _ _ (DraftBlock.rest_lt_of_pack _packed _done)
  · apply Prod.Lex.right
    simp [_empty, isEmpty_of_flush _flushed]

def writeRecord (w : VolumeWriter κ) (r : Record) :
    VolumeWriter κ × Outstanding × Except Failure Unit := w.store (.whole r)

end VolumeWriter
end BackupVolume
