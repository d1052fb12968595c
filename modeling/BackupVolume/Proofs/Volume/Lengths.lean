import BackupVolume.Device.File
import BackupVolume.Job.Options
import BackupVolume.Proofs.Volume.Handing

/-! # How long blocks get

A block consists of its header, the records in it, and what sealing adds. The writer plans for all
three, but it always leaves room for the smallest record, also where a block of the size it was
asked for has none.
-/
namespace BackupVolume

namespace VolumeWriter
variable {κ : Type}

def overheadOf (options : BlockOptions) (key : Option VolumeKey) : Nat :=
  HeaderLayout.bb03.headerLength options + if key.isSome then VolumeKey.overhead else 0

/-- The length of a full block of the least capacity that writers have: there is room for one octet
of a record. -/
def leastBlock (checksums : Bool) (key : Option VolumeKey) : Nat :=
  overheadOf (if checksums then .checksum else .none) key
    + (HeaderLayout.bb03.recordHeaderLength + 1)

/-- Without sealing the smallest block that options may ask for is long enough. -/
theorem leastBlock_none_le (checksums : Bool) :
    leastBlock checksums none ≤ JobOptions.leastBlockSize := by
  cases checksums <;> decide

theorem leastBlock_le (checksums : Bool) (key : Option VolumeKey) :
    leastBlock checksums key ≤ maxBlockLength := by
  cases key <;> cases checksums <;> exact Nat.le_of_ble_eq_true rfl

theorem overhead_add_capacity (sink : κ) (blockSize : Nat) (session : Session) (checksums : Bool)
    (key : Option VolumeKey) (nonce : Nonce) :
    overheadOf (if checksums then .checksum else .none) key
      + (create sink blockSize session checksums key nonce).draft.capacity
        = max blockSize (leastBlock checksums key) := by
  simp only [create, capacityOf, leastBlock, overheadOf]
  omega

/-- Only the records of a block that holds a positive file index are sealed. -/
theorem length_block {w : VolumeWriter κ} (hw : w.IsSound) {raw : Bytes} (hraw : w.block = .ok raw) :
    raw.length = HeaderLayout.bb03.headerLength w.draft.options
      + if w.key.isSome && !w.draft.holdsOnlyLabels then w.draft.used + VolumeKey.overhead
        else w.draft.used := by
  have hused : w.draft.payload.length = w.draft.used := Array.length_toList
  obtain ⟨o, payload, hwrites, rfl⟩ := writes_of_block hraw
  have hheader : (w.headerWith o).headerLength
      = HeaderLayout.bb03.headerLength w.draft.options := (hwrites.suits hw).headerLength
  rw [BlockHeader.length_encode, hheader]
  cases hwrites with
  | keyless hnone => simp [hnone, hused]
  | labels _ hlabels => simp [hlabels, hused]
  | sealed hsome hdata hsealed =>
    simp [hsome, hdata, hused, VolumeKey.length_encrypt hsealed]

structure Bounded (limit : Nat) (w : VolumeWriter (Recorder κ)) : Prop where
  sound : w.IsSound
  planned : overheadOf w.draft.options w.key + w.draft.capacity ≤ limit
  handed : ∀ bytes ∈ w.sink.handed, bytes.length ≤ limit

namespace Bounded
variable {limit : Nat} {w : VolumeWriter (Recorder κ)}

theorem length_block_le (h : Bounded limit w) {raw : Bytes} (hraw : w.block = .ok raw) :
    raw.length ≤ limit := by
  have hused := h.sound.used
  have hplanned := h.planned
  rw [overheadOf] at hplanned
  rw [length_block h.sound hraw]
  rcases hk : w.key with _ | k
  · simp only [hk, Option.isSome_none, Bool.false_and, Bool.false_eq_true, if_false] at hplanned ⊢
    omega
  · simp only [hk, Option.isSome_some, if_true] at hplanned
    split <;> omega

theorem pack (h : Bounded limit w) {o left : Outstanding} {d : DraftBlock}
    (hp : w.draft.pack o = some (d, left)) : Bounded limit { w with draft := d } := by
  have hsound := h.sound.pack hp
  obtain ⟨-, -, i, j, rfl⟩ := DraftBlock.exists_of_pack hp
  exact ⟨hsound, h.planned, h.handed⟩

variable [BlockSink κ]

theorem flush {v : VolumeWriter (Recorder κ)} {x : Except Failure Unit} (h : Bounded limit w)
    (hf : w.Flushes v x) : Bounded limit v := by
  refine ⟨h.sound.flush hf, ?_, fun bytes hb => ?_⟩
  · cases hf <;> exact h.planned
  · rcases (mem_handed_flush hf).mp hb with hb | ⟨-, hraw⟩
    · exact h.handed bytes hb
    · exact h.length_block_le hraw

theorem proceedAll (h : Bounded limit w) (steps : List WriterStep) :
    Bounded limit (w.proceedAll steps) :=
  proceedAll_induction (Q := fun _ _ => True) (fun h _ hp => ⟨h.pack hp, trivial⟩) flush h
    fun _ _ => trivial

end Bounded

variable [BlockSink κ]

/-- A record that fits into the block is handed over by the next flush, together with all that the
block had held before. -/
theorem mem_handed_of_pack {w : VolumeWriter (Recorder κ)} {r : Record} {d : DraftBlock}
    {left : Outstanding} (hp : w.draft.pack (.whole r) = some (d, left))
    (hc : left.isComplete = true) {raw : Bytes}
    (hraw : ({ w with draft := d } : VolumeWriter (Recorder κ)).block = .ok raw) :
    raw ∈ (w.proceedAll [.record r, .flush]).sink.handed := by
  obtain ⟨-, hused⟩ := DraftBlock.used_of_pack hp
  have hpos := w.draft.layout.recordHeaderLength_pos
  have hsome : ¬d.isEmpty = true := by
    rw [DraftBlock.isEmpty, Array.isEmpty_iff_size_eq_zero]
    change d.used ≠ 0
    omega
  rw [proceedAll, List.foldl_cons, List.foldl_cons, List.foldl_nil, proceed, writeRecord,
    store_complete hp hc, proceed, mem_handed_flush (flushes _)]
  exact .inr ⟨Bool.eq_false_iff.mpr hsome, hraw⟩

/-- A record that is as long as the room in an empty block fills it to the last octet. -/
theorem exists_full {w : VolumeWriter (Recorder κ)} (hw : w.IsSound) (he : w.draft.isEmpty = true) :
    ∃ r : Record, ∃ bytes ∈ (w.proceedAll [.record r, .flush]).sink.handed,
      bytes.length = overheadOf w.draft.options w.key + w.draft.capacity := by
  have hlayout := hw.layout
  have hroom := hw.room
  have hnone : w.draft.used = 0 := by
    rw [DraftBlock.used, Array.size_eq_zero_iff]
    simpa [DraftBlock.isEmpty] using he
  let r : Record := ⟨1, ⟨2⟩, List.replicate w.draft.room 0, {}, 0⟩
  obtain ⟨⟨d, left⟩, hp⟩ := Option.ne_none_iff_exists'.mp
    (DraftBlock.exists_pack_of_isEmpty he (by rw [hlayout]; exact hroom) (.whole r))
  have hsound := hw.pack hp
  have hpositive : d.holdsOnlyLabels = false := by
    have hlabels := DraftBlock.holdsOnlyLabels_of_pack hp
    exact Bool.eq_false_iff.mpr fun h => absurd (hlabels.mp h).2 (by decide : ¬(1 : Int32) ≤ 0)
  obtain ⟨-, hused⟩ := DraftBlock.used_of_pack hp
  obtain ⟨-, rfl, i, j, hd⟩ := DraftBlock.exists_of_pack hp
  have hoptions : d.options = w.draft.options := by rw [hd]
  have hfull : d.used = w.draft.capacity := by
    have hlength : (Outstanding.whole r).rest.length = w.draft.room := List.length_replicate
    rw [hused, hlength, Nat.min_self, hnone, DraftBlock.room, DraftBlock.free, hnone, hlayout]
    omega
  have hcomplete : ((Outstanding.whole r).after w.draft.room).isComplete = true := by
    simp [Outstanding.isComplete, Outstanding.after, Outstanding.whole, r]
  obtain ⟨raw, hraw⟩ := hsound.block_ok
  refine ⟨r, raw, mem_handed_of_pack hp hcomplete hraw, ?_⟩
  rw [length_block hsound hraw, overheadOf]
  simp only [hpositive, hfull, hoptions, Bool.not_false, Bool.and_true]
  split <;> omega

end VolumeWriter
end BackupVolume
