import BackupVolume.Proofs.Volume.Handing
import Mathlib.Logic.Relation

/-! # The numbers of the blocks that are taken

A flush that fails changes nothing but the sink and the nonce, so that the block is written under
the same number once it can be sealed and the sink takes it. Whatever fails in between, the blocks
that were taken are numbered in their order, with 32 bits, and each holds pieces of the records.
-/
namespace BackupVolume

structure Receipts (κ : Type) where
  sink : κ
  taken : List Bytes := []

instance {κ : Type} [BlockSink κ] : BlockSink (Receipts κ) where
  name r := BlockSink.name r.sink
  write r b :=
    match BlockSink.write r.sink b with
    | (sink, .error e) => ({ r with sink }, .error e)
    | (sink, .ok ()) => (⟨sink, r.taken ++ [b]⟩, .ok ())
  canWrite r := BlockSink.canWrite r.sink
  release r :=
    let (sink, x) := BlockSink.release r.sink
    ({ r with sink }, x)

def Receipts.plain {κ : Type} [BlockSink κ] : BlockSink.Hom (Receipts κ) κ where
  state := sink
  name _ := rfl
  write r b := by
    simp only [BlockSink.write]
    rcases BlockSink.write r.sink b with ⟨sink, e | ⟨⟨⟩⟩⟩
    · rfl
    · rfl

/-- A block of a writer: its header has the number and the session, and behind it stands the area,
in clear or sealed under these two. -/
inductive Carries (key : Option VolumeKey) (number : UInt32) (session : Session) (area : Bytes) :
    Bytes → Prop
  | clear {h : BlockHeader} (layout : h.layout = .bb03) (numbered : h.number = number)
      (inSession : h.session = session) : Carries key number session area (h.encode area).2
  | sealed {h : BlockHeader} {k : VolumeKey} {payload : Bytes} (keyed : key = some k)
      (layout : h.layout = .bb03) (numbered : h.number = number) (inSession : h.session = session)
      (nonce : Nonce)
      (encrypted : k.encrypt nonce (VolumeKey.associatedData number session) area = .ok payload) :
      Carries key number session area (h.encode payload).2

/-- The associated data of two blocks of a session differ where their places differ, up to the
width of a block number. -/
theorem VolumeKey.associatedData_injective {session : Session} {i j : Nat} (hi : i < 2 ^ 32)
    (hj : j < 2 ^ 32)
    (h : associatedData i.toUInt32 session = associatedData j.toUInt32 session) : i = j := by
  have hlength : (Bytes.ofUInt32 i.toUInt32).length = (Bytes.ofUInt32 j.toUInt32).length := by
    rw [Bytes.length_ofUInt32, Bytes.length_ofUInt32]
  have hnumber := congrArg Bytes.toUInt32 (List.append_inj h hlength).1
  rw [Bytes.toUInt32_ofUInt32, Bytes.toUInt32_ofUInt32] at hnumber
  calc i = i.toUInt32.toNat := (UInt32.toNat_ofNat_of_lt' hi).symm
    _ = j.toUInt32.toNat := congrArg UInt32.toNat hnumber
    _ = j := UInt32.toNat_ofNat_of_lt' hj

namespace VolumeWriter
variable {κ : Type}

theorem carries_block {w : VolumeWriter κ} {raw : Bytes} (h : w.block = .ok raw) :
    Carries w.key w.draft.number w.draft.session w.draft.payload raw := by
  obtain ⟨o, payload, hwrites, rfl⟩ := writes_of_block h
  cases hwrites with
  | keyless => exact .clear rfl rfl rfl
  | labels => exact .clear rfl rfl rfl
  | sealed hkey _ hsealed => exact .sealed hkey rfl rfl rfl w.nonce hsealed

def CarriesPieces (key : Option VolumeKey) (session : Session) (rs : List Record) (number : UInt32)
    (bytes : Bytes) : Prop :=
  ∃ ps : List Piece, ps ≠ [] ∧ (∀ p ∈ ps, ∃ r ∈ rs, p.IsOf session r) ∧
    Carries key number session (ps.flatMap (Piece.toBytes .bb03)) bytes

/-- A writer that was given these records. Every block that was taken has the number of its place,
and the next one will have it too. -/
structure Numbers (key : Option VolumeKey) (session : Session) (rs : List Record)
    (w : VolumeWriter (Receipts κ)) : Prop where
  keyed : w.key = key
  layout : w.draft.layout = .bb03
  inSession : w.draft.session = session
  payload : ∃ ps : List Piece, (∀ p ∈ ps, ∃ r ∈ rs, p.IsOf session r) ∧
    w.draft.payload = ps.flatMap (Piece.toBytes .bb03)
  next : w.draft.number = w.sink.taken.length.toUInt32
  taken : ∀ (i : Nat) (bytes : Bytes), w.sink.taken[i]? = some bytes →
    CarriesPieces key session rs i.toUInt32 bytes
  blocksWritten : w.blocksWritten = w.sink.taken.length
  bytesWritten : w.bytesWritten = w.sink.taken.flatten.length

namespace Numbers
variable {key : Option VolumeKey} {session : Session} {rs : List Record}
  {w : VolumeWriter (Receipts κ)}

theorem pack (h : Numbers key session rs w) {o left : Outstanding} {d : DraftBlock} {r : Record}
    (hr : r ∈ rs) (ho : o.IsOf r) (hp : w.draft.pack o = some (d, left)) :
    Numbers key session rs { w with draft := d } ∧ left.IsOf r := by
  obtain ⟨ps, hpieces, hfilled⟩ := h.payload
  have hlayout := h.layout
  have hpayload := DraftBlock.payload_of_pack hp
  obtain ⟨-, rfl, i, j, rfl⟩ := DraftBlock.exists_of_pack hp
  refine ⟨⟨h.keyed, hlayout, h.inSession, ?_, h.next, h.taken, h.blocksWritten, h.bytesWritten⟩,
    ho.after _⟩
  refine ⟨ps ++ [w.draft.nextPiece o], ?_, ?_⟩
  · intro p hp
    rcases List.mem_append.mp hp with hp | hp
    · exact hpieces p hp
    · rw [List.mem_singleton.mp hp]
      exact ⟨r, hr, ho.nextPiece h.inSession⟩
  · rw [hpayload, hfilled, hlayout, List.flatMap_append, List.flatMap_singleton]

/-- The block is not empty, and its number is its place behind what was taken. -/
theorem carriesPieces (h : Numbers key session rs w) (he : w.draft.isEmpty = false) {raw : Bytes}
    (hraw : w.block = .ok raw) :
    CarriesPieces key session rs w.sink.taken.length.toUInt32 raw := by
  obtain ⟨ps, hpieces, hfilled⟩ := h.payload
  refine ⟨ps, ?_, hpieces, ?_⟩
  · rintro rfl
    rw [List.flatMap_nil] at hfilled
    have hempty : w.draft.isEmpty = true := by
      simpa [DraftBlock.isEmpty, DraftBlock.payload] using hfilled
    rw [hempty] at he
    cases he
  · have hblock := carries_block hraw
    rwa [h.keyed, h.inSession, h.next, hfilled] at hblock

end Numbers

theorem numbers_create (sink : κ) (blockSize : Nat) (session : Session) (checksums : Bool)
    (key : Option VolumeKey) (nonce : Nonce) (rs : List Record) :
    Numbers key session rs
      (create (⟨sink, []⟩ : Receipts κ) blockSize session checksums key nonce) := by
  refine ⟨rfl, rfl, rfl, ⟨[], by simp, rfl⟩, rfl, ?_, rfl, rfl⟩
  intro i bytes hi
  simp [create] at hi

variable [BlockSink κ]

/-- The block of `w` is not sealed or not taken, and `w` is left as `v`. -/
def Refused (w v : VolumeWriter κ) : Prop := ∃ e, w.flush = (v, .error e)

/-- A refused block stays with the writer as it was, and if it could not be sealed, so does all else.
-/
theorem unchanged_of_error {w v : VolumeWriter κ} {e : Failure} (h : w.Flushes v (.error e)) :
    w.draft.isEmpty = false ∧ v = { w with sink := v.sink, nonce := v.nonce } ∧
      ∀ cause, e = .crypto cause → v = w := by
  cases h with
  | unsealed he => exact ⟨he, rfl, fun _ _ => rfl⟩
  | refused he => exact ⟨he, rfl, nofun⟩

/-- Blocks that are refused again and again stay with the writer as they were. -/
theorem unchanged_of_refused {w v : VolumeWriter κ} (h : Relation.ReflTransGen Refused w v) :
    v = { w with sink := v.sink, nonce := v.nonce } := by
  induction h with
  | refl => rfl
  | tail _ hlast ih =>
    obtain ⟨e, he⟩ := hlast
    have hstep := (unchanged_of_error (flush_eq_iff.mp he)).2.1
    rw [ih] at hstep
    exact hstep

/-- A block of data that is too long to be sealed is refused before the sink learns of it. -/
theorem flush_of_long {w : VolumeWriter κ} (he : w.draft.isEmpty = false)
    (hkey : w.key.isSome = true) (hdata : w.draft.holdsOnlyLabels = false)
    (hlong : Cipher.Gcm.maxLength < w.draft.used) :
    w.flush = (w, .error (.crypto .encryptionFailed)) :=
  (Flushes.unsealed he (block_error_iff.mpr ⟨rfl, hkey, hdata, hlong⟩)).flush_eq

section Receipts
variable {w v : VolumeWriter (Receipts κ)}

theorem taken_of_write {r r' : Receipts κ} {b : Bytes} {x : Except IoFault Unit}
    (h : BlockSink.write r b = (r', x)) :
    r'.taken = match x with
      | .error _ => r.taken
      | .ok () => r.taken ++ [b] := by
  simp only [BlockSink.write] at h
  rcases hw : BlockSink.write r.sink b with ⟨sink, e | ⟨⟨⟩⟩⟩
  · rw [hw] at h
    cases h
    rfl
  · rw [hw] at h
    cases h
    rfl

theorem taken_of_refused (h : Relation.ReflTransGen Refused w v) :
    v.sink.taken = w.sink.taken := by
  induction h with
  | refl => rfl
  | tail _ hlast ih =>
    obtain ⟨e, he⟩ := hlast
    cases flush_eq_iff.mp he with
    | unsealed => exact ih
    | refused _ _ hwrite => exact (taken_of_write hwrite).trans ih

/-- The sink has taken the block of `w`, and the writer `v` goes on with the next number. -/
structure Sends (w v : VolumeWriter (Receipts κ)) (bytes : Bytes) : Prop where
  taken : v.sink.taken = w.sink.taken ++ [bytes]
  carries : Carries w.key w.draft.number w.draft.session w.draft.payload bytes
  draft : v.draft = w.draft.reset (w.draft.number + 1)
  blocksWritten : v.blocksWritten = w.blocksWritten + 1
  bytesWritten : v.bytesWritten = w.bytesWritten + bytes.length

/-- A flush that succeeds behind failed ones sends what the first of them was to send. -/
theorem sends_of_refused {u : VolumeWriter (Receipts κ)} (hw : w.draft.isEmpty = false)
    (hr : Relation.ReflTransGen Refused w v) (hf : v.Flushes u (.ok ())) :
    ∃ bytes, v.block = .ok bytes ∧ w.Sends u bytes := by
  have htaken := taken_of_refused hr
  have hkept := unchanged_of_refused hr
  have hkey : v.key = w.key := by rw [hkept]
  have hdraft : v.draft = w.draft := by rw [hkept]
  have hblocks : v.blocksWritten = w.blocksWritten := by rw [hkept]
  have hbytes : v.bytesWritten = w.bytesWritten := by rw [hkept]
  cases hf with
  | empty he =>
    rw [hdraft, hw] at he
    cases he
  | @taken raw _ _ hblock hwrite =>
    refine ⟨raw, hblock, ?_, ?_, ?_, ?_, ?_⟩
    · rw [← htaken]
      exact taken_of_write hwrite
    · rw [← hkey, ← hdraft]
      exact carries_block hblock
    · exact congrArg (fun d : DraftBlock => d.reset (d.number + 1)) hdraft
    · exact congrArg (· + 1) hblocks
    · exact congrArg (· + raw.length) hbytes

namespace Numbers
variable {key : Option VolumeKey} {session : Session} {rs : List Record}

theorem flush {x : Except Failure Unit} (h : Numbers key session rs w) (hf : w.Flushes v x) :
    Numbers key session rs v := by
  cases hf with
  | empty => exact h
  | unsealed => exact h
  | refused _ _ hwrite =>
    have htaken := taken_of_write hwrite
    simp only at htaken
    exact ⟨h.keyed, h.layout, h.inSession, h.payload, htaken ▸ h.next, htaken ▸ h.taken,
      htaken ▸ h.blocksWritten, htaken ▸ h.bytesWritten⟩
  | taken he hraw hwrite =>
    have htaken := taken_of_write hwrite
    simp only at htaken
    have hblock := h.carriesPieces he hraw
    refine ⟨h.keyed, h.layout, h.inSession, ⟨[], by simp, rfl⟩, ?_, ?_, ?_, ?_⟩
    · have hnext : w.draft.number + 1 = (w.sink.taken.length + 1).toUInt32 := by
        rw [h.next]
        exact (UInt32.ofNat_add w.sink.taken.length 1).symm
      simp only [htaken, List.length_append, List.length_singleton]
      exact hnext
    · intro i bytes hi
      simp only [htaken] at hi
      -- The new block stands behind all that were taken before.
      rcases Nat.lt_trichotomy i w.sink.taken.length with hlt | rfl | hgt
      · rw [List.getElem?_append_left hlt] at hi
        exact h.taken i bytes hi
      · rw [List.getElem?_concat_length] at hi
        cases hi
        exact hblock
      · rw [List.getElem?_eq_none (by rw [List.length_append, List.length_singleton]; omega)] at hi
        cases hi
    · simp only [htaken, List.length_append, List.length_singleton, h.blocksWritten]
    · simp only [htaken, List.flatten_concat, List.length_append, h.bytesWritten]

/-- What is true of the numbers stays true over all steps, whatever the sink refuses. -/
theorem proceedAll {steps : List WriterStep} (h : Numbers key session rs w)
    (hr : ∀ r ∈ WriterStep.records steps, r ∈ rs) :
    Numbers key session rs (w.proceedAll steps) := by
  apply proceedAll_induction (P := Numbers key session rs) (Q := fun r o => r ∈ rs ∧ o.IsOf r) ?_
    flush h
  · intro r hmem
    exact ⟨hr r hmem, rfl, rfl, List.suffix_refl _⟩
  · rintro w r o left d h ⟨hmem, ho⟩ packed
    obtain ⟨hpacked, hleft⟩ := h.pack hmem ho packed
    exact ⟨hpacked, hmem, hleft⟩

end Numbers

end Receipts

/-- A flush that fails, at sealing or at the sink, loses nothing, and what is sent in the end is what
was refused; if the block could not be sealed, the sink has not been called. Whatever is refused, the
blocks that a sink has taken are numbered from zero on, each tells its number and its session, and
the writer has counted them. -/
theorem numbered_without_gap (sink : κ) (blockSize : Nat) (session : Session) (checksums : Bool)
    (key : Option VolumeKey) (nonce : Nonce) (steps : List WriterStep) :
    (∀ (w v : VolumeWriter κ) (e : Failure), w.flush = (v, .error e) →
      v = { w with sink := v.sink, nonce := v.nonce } ∧ ∀ cause, e = .crypto cause → v = w) ∧
    (∀ w v u : VolumeWriter (Receipts κ), w.draft.isEmpty = false →
      Relation.ReflTransGen Refused w v → v.flush = (u, .ok ()) →
        ∃ bytes, v.block = .ok bytes ∧ w.Sends u bytes) ∧
    let w := (create sink blockSize session checksums key nonce).proceedAll steps
    let v := (create (⟨sink, []⟩ : Receipts κ) blockSize session checksums key nonce).proceedAll
      steps
    v.map Receipts.plain = w ∧
    (∀ (i : Nat) (bytes : Bytes), v.sink.taken[i]? = some bytes →
      CarriesPieces key session (WriterStep.records steps) i.toUInt32 bytes) ∧
    w.draft.number = v.sink.taken.length.toUInt32 ∧
    w.blocksWritten = v.sink.taken.length ∧
    w.bytesWritten = v.sink.taken.flatten.length ∧
    ∀ i j : Nat, i < 2 ^ 32 → j < 2 ^ 32 →
      VolumeKey.associatedData i.toUInt32 session = VolumeKey.associatedData j.toUInt32 session →
        i = j := by
  refine ⟨?_, ?_, ?_⟩
  · intro w v e he
    exact (unchanged_of_error (flush_eq_iff.mp he)).2
  · intro w v u hw hr hf
    exact sends_of_refused hw hr (flush_eq_iff.mp hf)
  · intro w v
    have hsame : v.map Receipts.plain = w :=
      (map_proceedAll Receipts.plain (create (⟨sink, []⟩ : Receipts κ) blockSize session checksums
        key nonce) steps).symm
    have hv : Numbers key session (WriterStep.records steps) v :=
      (numbers_create sink blockSize session checksums key nonce _).proceedAll fun _ hr => hr
    constructor
    · exact hsame
    · rw [← hsame]
      refine ⟨hv.taken, hv.next, hv.blocksWritten, hv.bytesWritten, ?_⟩
      intro i j hi hj h
      exact VolumeKey.associatedData_injective hi hj h

end VolumeWriter

structure ReluctantSink where
  refusals : Nat

instance : BlockSink ReluctantSink where
  name _ := "sink"
  write s _ :=
    match s.refusals with
    | 0 => (s, .ok ())
    | n + 1 => (⟨n⟩, .error ⟨.other, "busy"⟩)
  canWrite _ := true
  release s := (s, .ok ())

namespace VolumeWriter

theorem refused_of_refusals {w : VolumeWriter (Receipts ReluctantSink)} {n : Nat}
    (hw : w.draft.isEmpty = false) (hshort : w.draft.used ≤ Cipher.Gcm.maxLength)
    (hn : w.sink.sink.refusals = n + 1) :
    w.Refused w.flush.1 ∧ w.flush.1.draft = w.draft ∧ w.flush.1.sink.sink.refusals = n := by
  obtain ⟨raw, hraw⟩ := block_ok hshort
  have hwrite : BlockSink.write w.sink raw
      = ({ w.sink with sink := ⟨n⟩ }, .error ⟨.other, "busy"⟩) := by
    simp only [BlockSink.write, hn]
  have hflush := (Flushes.refused hw hraw hwrite).flush_eq
  rw [hflush]
  exact ⟨⟨_, hflush⟩, rfl, rfl⟩

theorem flush_of_patient {w : VolumeWriter (Receipts ReluctantSink)}
    (hshort : w.draft.used ≤ Cipher.Gcm.maxLength) (hn : w.sink.sink.refusals = 0) :
    w.flush.2 = .ok () := by
  obtain ⟨raw, hraw⟩ := block_ok hshort
  rcases hflush : w.flush with ⟨v, x⟩
  cases flush_eq_iff.mp hflush with
  | empty => rfl
  | unsealed _ hblock => cases hraw.symm.trans hblock
  | refused _ _ hrefuse => simp [BlockSink.write, hn] at hrefuse
  | taken => rfl

/-- A block that is refused twice is sent under the number zero. If it had been too long to be
sealed, it would be refused without the sink. -/
theorem numbered_behind_refusals :
    let key : VolumeKey := ⟨List.replicate 32 1, rfl⟩
    let r : Record := ⟨1, ⟨2⟩, [1, 2, 3], {}, 0⟩
    let w := (create (⟨⟨2⟩, []⟩ : Receipts ReluctantSink) 80 ⟨7, 9⟩ false (some key) ⟨0⟩).proceed
      (.record r)
    let v := (w.proceed .flush).proceed .flush
    let long := { w with
      draft := { w.draft with area := Array.replicate (Cipher.Gcm.maxLength + 1) 0 } }
    w.Refused (w.proceed .flush) ∧ (w.proceed .flush).Refused v ∧ v.flush.2 = .ok () ∧
      (∃ bytes, v.block = .ok bytes ∧ w.Sends v.flush.1 bytes) ∧ w.draft.number = 0 ∧
      long.Refused long := by
  intro key r w v long
  have hstored := store_complete (o := .whole r) (w := create (⟨⟨2⟩, []⟩ : Receipts ReluctantSink)
    80 ⟨7, 9⟩ false (some key) ⟨0⟩) rfl rfl
  have htwo : w.sink.sink.refusals = 1 + 1 := by
    simp only [w, proceed, writeRecord, hstored]
    rfl
  have hkey : w.key = some key := by
    simp only [w, proceed, writeRecord, hstored]
    rfl
  have hdraft : w.draft.isEmpty = false ∧ w.draft.holdsOnlyLabels = false ∧ w.draft.number = 0 ∧
      w.draft.used ≤ Cipher.Gcm.maxLength := by
    simp only [w, proceed, writeRecord, hstored]
    decide +kernel
  obtain ⟨hempty, hdata, hnumber, hshort⟩ := hdraft
  obtain ⟨hfirst, hkept, hone⟩ := refused_of_refusals hempty hshort htwo
  obtain ⟨hsecond, hkept', hzero⟩ :=
    refused_of_refusals (hkept.symm ▸ hempty) (hkept.symm ▸ hshort) hone
  have hdone : v.flush.2 = .ok () :=
    flush_of_patient (hkept'.symm ▸ hkept.symm ▸ hshort) hzero
  obtain ⟨-, hsends, -⟩ := numbered_without_gap (⟨2⟩ : ReluctantSink) 80 ⟨7, 9⟩ false (some key) ⟨0⟩
    [.record r]
  have hsent := hsends w v v.flush.1 hempty (.tail (.single hfirst) hsecond) (Prod.ext rfl hdone)
  have hlong : long.flush = (long, .error (.crypto .encryptionFailed)) := by
    refine flush_of_long ?_ (hkey ▸ rfl) hdata ?_
    · simp [long, DraftBlock.isEmpty]
    · simp [long, DraftBlock.used]
  exact ⟨hfirst, hsecond, hdone, hsent, hnumber, _, hlong⟩

end VolumeWriter
end BackupVolume
