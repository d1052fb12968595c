import BackupVolume.Proofs.Volume.Recording

/-! # What a writer with a key hands over

Whatever becomes of its blocks, a writer with a key hands over record areas that consist of pieces
of its records. An area with a piece of a positive file index is sealed with the key, all others
are in clear.
-/
namespace BackupVolume

theorem DraftBlock.holdsOnlyLabels_of_pack {d d' : DraftBlock} {o left : Outstanding}
    (h : d.pack o = some (d', left)) :
    d'.holdsOnlyLabels = true ↔ d.holdsOnlyLabels = true ∧ o.fileIndex ≤ 0 := by
  rw [pack] at h
  split at h
  · cases h
  · cases h
    rw [noteIndex]
    split
    · next positive =>
      have hne : o.fileIndex ≠ 0 := by
        intro hz
        rw [hz] at positive
        exact absurd positive (by decide)
      have hnot : ¬o.fileIndex ≤ 0 := Int32.not_le.mpr positive
      simp only [holdsOnlyLabels, beq_iff_eq, hnot, and_false, iff_false]
      split
      · exact hne
      · next hfirst => exact hfirst
    · next negative =>
      have hle : o.fileIndex ≤ 0 := Int32.not_lt.mp negative
      simp only [holdsOnlyLabels, hle, and_true]

structure Outstanding.IsOf (o : Outstanding) (r : Record) : Prop where
  fileIndex : o.fileIndex = r.fileIndex
  tag : o.tag = r.tag
  rest : o.rest <:+ r.payload

theorem Outstanding.IsOf.after {o : Outstanding} {r : Record} (h : o.IsOf r) (n : Nat) :
    (o.after n).IsOf r := ⟨h.fileIndex, h.tag, (List.drop_suffix n o.rest).trans h.rest⟩

namespace Piece

def IsOf (session : Session) (p : Piece) (r : Record) : Prop :=
  ∃ (o : Outstanding) (n : Nat), o.IsOf r ∧ p = ⟨o.header session, o.rest.take n⟩

/-- All that the header announces is there, up to what it cannot tell. -/
def Ends (p : Piece) : Prop := p.head.outstanding = p.data.length.toUInt32

end Piece

theorem Outstanding.IsOf.nextPiece {o : Outstanding} {r : Record} (h : o.IsOf r) {d : DraftBlock}
    {session : Session} (hd : d.session = session) : (d.nextPiece o).IsOf session r := by
  refine ⟨o, d.room, h, ?_⟩
  rw [DraftBlock.nextPiece, hd]

/-- A block that a writer with key `k` hands over for an area of pieces. An area with a piece of a
positive file index is sealed under the number and the session of the block. -/
inductive Protects (k : VolumeKey) (base : BlockOptions) (session : Session) (ps : List Piece) :
    Bytes → Prop
  | sealed {h : BlockHeader} {payload : Bytes} (holds : ∃ p ∈ ps, 0 < p.head.fileIndex)
      (layout : h.layout = .bb03) (inSession : h.session = session)
      (options : h.options = (base.union .volumeSealed).union .blockSealed) (nonce : Nonce)
      (encrypted : k.encrypt nonce (VolumeKey.associatedData h.number h.session)
        (ps.flatMap (Piece.toBytes .bb03)) = .ok payload) :
      Protects k base session ps (h.encode payload).2
  | clear {h : BlockHeader} (labels : ∀ p ∈ ps, p.head.fileIndex ≤ 0) (layout : h.layout = .bb03)
      (inSession : h.session = session) (options : h.options = base.union .volumeSealed) :
      Protects k base session ps (h.encode (ps.flatMap (Piece.toBytes .bb03))).2

/-- A block of pieces of these records; all of them but the last end their record. -/
structure Protected (k : VolumeKey) (base : BlockOptions) (session : Session) (rs : List Record)
    (bytes : Bytes) (ps : List Piece) : Prop where
  filled : ps ≠ []
  pieces : ∀ p ∈ ps, ∃ r ∈ rs, p.IsOf session r
  ends : ∀ p ∈ ps.dropLast, p.Ends
  block : Protects k base session ps bytes

namespace VolumeWriter
variable {κ : Type}

/-- A writer with a key that was given these records, whose draft holds the pieces `ps`. Only where
the draft is full may its last piece leave something of its record. -/
structure Fills (k : VolumeKey) (base : BlockOptions) (session : Session) (rs : List Record)
    (w : VolumeWriter (Recorder κ)) (ps : List Piece) : Prop where
  key : w.key = some k
  layout : w.draft.layout = .bb03
  options : w.draft.options = base
  inSession : w.draft.session = session
  payload : w.draft.payload = ps.flatMap (Piece.toBytes .bb03)
  labels : w.draft.holdsOnlyLabels = true ↔ ∀ p ∈ ps, p.head.fileIndex ≤ 0
  pieces : ∀ p ∈ ps, ∃ r ∈ rs, p.IsOf session r
  ends : (∀ p ∈ ps, p.Ends) ∨ w.draft.free = 0 ∧ ∀ p ∈ ps.dropLast, p.Ends
  handed : ∀ bytes ∈ w.sink.handed, ∃ qs, Protected k base session rs bytes qs

namespace Fills
variable {k : VolumeKey} {base : BlockOptions} {session : Session} {rs : List Record}
  {w : VolumeWriter (Recorder κ)} {ps : List Piece}

/-- The block is sealed exactly where it holds a piece of a positive file index. -/
theorem protects (h : Fills k base session rs w ps) {raw : Bytes} (hraw : w.block = .ok raw) :
    Protects k base session ps raw := by
  have hkey := h.key
  have hoptions := h.options
  obtain ⟨o, payload, hwrites, rfl⟩ := writes_of_block hraw
  cases hwrites with
  | keyless hnone =>
    rw [hkey] at hnone
    cases hnone
  | labels _ hlabels =>
    rw [hoptions, h.payload]
    exact .clear (h.labels.mp hlabels) rfl h.inSession rfl
  | sealed hsome hdata hencrypted =>
    rw [hkey, Option.some.injEq] at hsome
    subst hsome
    have hpositive : ∃ p ∈ ps, 0 < p.head.fileIndex := by
      refine Classical.byContradiction fun hnone => ?_
      have hlabels : w.draft.holdsOnlyLabels = true :=
        h.labels.mpr fun p hp => Int32.not_lt.mp fun hlt => hnone ⟨p, hp, hlt⟩
      rw [hdata] at hlabels
      cases hlabels
    rw [h.payload] at hencrypted
    rw [hoptions]
    exact .sealed hpositive rfl h.inSession rfl w.nonce hencrypted

theorem ne_nil (h : Fills k base session rs w ps) (he : ¬w.draft.isEmpty = true) : ps ≠ [] := by
  rintro rfl
  have hpayload := h.payload
  rw [List.flatMap_nil] at hpayload
  exact he (by simpa [DraftBlock.isEmpty, DraftBlock.payload] using hpayload)

theorem pack (h : Fills k base session rs w ps) {o left : Outstanding} {d : DraftBlock} {r : Record}
    (hr : r ∈ rs) (ho : o.IsOf r) (hp : w.draft.pack o = some (d, left)) :
    Fills k base session rs { w with draft := d } (ps ++ [w.draft.nextPiece o]) ∧ left.IsOf r := by
  have hlayout := h.layout
  have hpayload := DraftBlock.payload_of_pack hp
  have hlabels := DraftBlock.holdsOnlyLabels_of_pack hp
  obtain ⟨hheader, hused⟩ := DraftBlock.used_of_pack hp
  obtain ⟨-, rfl, i, j, rfl⟩ := DraftBlock.exists_of_pack hp
  have hdata := w.draft.length_data_nextPiece o
  have hpos := w.draft.layout.recordHeaderLength_pos
  have hall : ∀ p ∈ ps, p.Ends := by
    rcases h.ends with hall | ⟨hfull, -⟩
    · exact hall
    · omega
  refine ⟨⟨h.key, hlayout, h.options, h.inSession, ?_, ?_, ?_, ?_, h.handed⟩, ho.after _⟩
  · rw [hpayload, h.payload, hlayout, List.flatMap_append, List.flatMap_singleton]
  · rw [hlabels, h.labels]
    constructor
    · rintro ⟨hold, hnew⟩ p hp
      rcases List.mem_append.mp hp with hp | hp
      · exact hold p hp
      · rw [List.mem_singleton.mp hp]
        exact hnew
    · intro hboth
      exact ⟨fun p hp => hboth p (by simp [hp]), hboth (w.draft.nextPiece o) (by simp)⟩
  · intro p hp
    rcases List.mem_append.mp hp with hp | hp
    · exact h.pieces p hp
    · rw [List.mem_singleton.mp hp]
      exact ⟨r, hr, ho.nextPiece h.inSession⟩
  · by_cases hfits : o.rest.length ≤ w.draft.room
    · left
      intro p hp
      rcases List.mem_append.mp hp with hp | hp
      · exact hall p hp
      · rw [List.mem_singleton.mp hp, Piece.Ends, hdata, Nat.min_eq_right hfits]
        rfl
    · right
      refine ⟨?_, by rw [List.dropLast_concat]; exact hall⟩
      rw [DraftBlock.free] at hheader
      rw [DraftBlock.free, hused]
      change w.draft.capacity - _ = 0
      rw [DraftBlock.room, DraftBlock.free] at hfits ⊢
      omega

variable [BlockSink κ]

theorem flush {v : VolumeWriter (Recorder κ)} {x : Except Failure Unit}
    (h : Fills k base session rs w ps) (hf : w.Flushes v x) :
    ∃ qs, Fills k base session rs v qs := by
  -- Whether the sink takes the block or not, it has been handed it.
  have hhanded : ∀ bytes ∈ v.sink.handed, ∃ qs, Protected k base session rs bytes qs := by
    have hends : ∀ p ∈ ps.dropLast, p.Ends := by
      rcases h.ends with hall | ⟨-, hall⟩
      · exact fun p hp => hall p (List.dropLast_subset ps hp)
      · exact hall
    intro bytes hb
    rcases (mem_handed_flush hf).mp hb with hb | ⟨he, hraw⟩
    · exact h.handed bytes hb
    · exact ⟨ps, h.ne_nil (Bool.eq_false_iff.mp he), h.pieces, hends, h.protects hraw⟩
  cases hf with
  | empty => exact ⟨ps, h⟩
  | unsealed => exact ⟨ps, h⟩
  | refused =>
    exact ⟨ps, h.key, h.layout, h.options, h.inSession, h.payload, h.labels, h.pieces, h.ends,
      hhanded⟩
  | taken =>
    exact ⟨[], h.key, h.layout, h.options, h.inSession, rfl, by simp [DraftBlock.reset,
      DraftBlock.holdsOnlyLabels], by simp, .inl (by simp), hhanded⟩

theorem proceedAll {steps : List WriterStep} (h : ∃ ps, Fills k base session rs w ps)
    (hr : ∀ r ∈ WriterStep.records steps, r ∈ rs) :
    ∃ ps, Fills k base session rs (w.proceedAll steps) ps := by
  refine proceedAll_induction (P := fun w => ∃ ps, Fills k base session rs w ps)
    (Q := fun r o => r ∈ rs ∧ o.IsOf r) ?_ (fun ⟨_, h⟩ hf => h.flush hf) h
    fun r hmem => ⟨hr r hmem, rfl, rfl, List.suffix_refl _⟩
  rintro w r o left d ⟨ps, h⟩ ⟨hmem, ho⟩ packed
  obtain ⟨hpacked, hleft⟩ := h.pack hmem ho packed
  exact ⟨⟨_, hpacked⟩, hmem, hleft⟩

end Fills

theorem fills_create (sink : κ) (blockSize : Nat) (session : Session) (checksums : Bool)
    (k : VolumeKey) (nonce : Nonce) (rs : List Record) :
    Fills k (if checksums then .checksum else .none) session rs
      (create (⟨sink, []⟩ : Recorder κ) blockSize session checksums (some k) nonce) [] :=
  ⟨rfl, rfl, rfl, rfl, rfl, by simp [create, DraftBlock.holdsOnlyLabels], by simp, .inl (by simp),
    by simp [create]⟩

end VolumeWriter
end BackupVolume
