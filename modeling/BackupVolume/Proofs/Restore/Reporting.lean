import BackupVolume.Proofs.Restore.Stages

/-! # What a decoder answers and counts

Decoding fails for good in two cases: the payload of a deduplicated record cannot be put together
and the decoder does not make do with a part of it, or the attributes of a file cannot be read. Any
other failure is about the content of file data, and is told as a fault of that record. Every call
counts a record; it counts an error for a payload that was damaged and another one for a fault.
-/
namespace BackupVolume
open Compression

namespace Record
variable {codecs : Codecs} {scratch : Scratch} {s : Record} {e : Failure}

/-- Why the content in a data record cannot be had: the payload ends within the address, or what
stands behind the address cannot be decompressed. -/
inductive IsSpoiled (codecs : Codecs) (scratch : Scratch) (s : Record) : Failure → Prop
  | address : s.tag.hasOffsets = true → s.payload.length < addressLength →
      IsSpoiled codecs scratch s (.shortPayload s.tag s.payload.length)
  | bare {address : Option Nat} {packed : Bytes} {x : CodecError} :
      s.tag.treatment? = some .inflate → s.splitAddress = .ok (address, packed) →
      (scratch.fit (codecs.plain.decompress packed)).1 = .error x →
      IsSpoiled codecs scratch s (.codec x)
  | contained {address : Option Nat} {packed : Bytes} {x : CodecError} :
      s.tag.treatment? = some .unwrap → s.splitAddress = .ok (address, packed) →
      codecs.Refuses scratch packed x → IsSpoiled codecs scratch s (.codec x)

theorem splitAddress_error_iff : s.splitAddress = .error e ↔ s.tag.hasOffsets = true ∧
    s.payload.length < addressLength ∧ e = .shortPayload s.tag s.payload.length := by
  rw [splitAddress]
  by_cases ho : s.tag.hasOffsets = true
  · by_cases hl : s.payload.length < addressLength
    · simp [ho, hl, eq_comm]
    · simp [ho, hl]
  · simp [ho]

theorem IsSpoiled.of_splitAddress (h : s.splitAddress = .error e) : IsSpoiled codecs scratch s e := by
  obtain ⟨ho, hshort, rfl⟩ := splitAddress_error_iff.mp h
  exact .address ho hshort

theorem IsSpoiled.scope (h : IsSpoiled codecs scratch s e) : e.scope = .record := by
  cases h <;> rfl

end Record

namespace Decoder
variable {d : Decoder} {r s : Record} {e : Failure} {x : RehydrationError}

theorem decompress_error_iff {unpack : Bytes → Scratch → Except CodecError Bytes × Scratch} :
    (d.decompress s unpack).2 = .error e ↔ s.splitAddress = .error e ∨
      ∃ address packed x, s.splitAddress = .ok (address, packed) ∧
        (unpack packed d.scratch).1 = .error x ∧ e = .codec x := by
  unfold decompress
  rcases s.splitAddress with y | ⟨address, packed⟩
  · simp
  · dsimp only
    rcases hu : unpack packed d.scratch with ⟨x | data, scratch⟩
    · constructor
      · rintro ⟨⟩
        exact .inr ⟨address, packed, x, rfl, by rw [hu], rfl⟩
      · rintro (hsplit | ⟨a, p, y, hsplit, hy, rfl⟩)
        · cases hsplit
        · cases hsplit
          rw [hu] at hy
          cases hy
          rfl
    · simp [hu]

theorem treat_inflate (h : s.tag.treatment? = some .inflate) :
    d.treat s = d.decompress s d.codecs.inflate := by
  have hkind : s.tag.kind?.bind Treatment.ofKind? = some .inflate := h
  simp only [treat, hkind]

theorem treat_unwrap (h : s.tag.treatment? = some .unwrap) :
    d.treat s = d.decompress s d.codecs.unwrap := by
  have hkind : s.tag.kind?.bind Treatment.ofKind? = some .unwrap := h
  simp only [treat, hkind]

/-- Treating a record fails where its attributes cannot be read or its content cannot be had. -/
theorem treat_error_iff : (d.treat s).2 = .error e ↔
    (s.tag.isAttributes = true ∧ ∃ x, d.unpacker s = .error x ∧ e = .attributes x) ∨
      s.tag.isFileData = true ∧ s.IsSpoiled d.codecs d.scratch e := by
  constructor
  · intro h
    unfold treat at h
    split at h
    · next hkind =>
      split at h
      · cases h
      · next x hx =>
        cases h
        exact .inl ⟨StreamTag.isAttributes_of_treatment? hkind, x, hx, rfl⟩
    · next hkind =>
      refine .inr ⟨StreamTag.isFileData_of_treatment? (.inl hkind), ?_⟩
      split at h
      · cases h
      · next hsplit =>
        cases h
        exact .of_splitAddress hsplit
    · next hkind =>
      refine .inr ⟨StreamTag.isFileData_of_treatment? (.inr (.inl hkind)), ?_⟩
      rcases decompress_error_iff.mp h with hsplit | ⟨address, packed, x, hsplit, hx, rfl⟩
      · exact .of_splitAddress hsplit
      · exact .bare hkind hsplit hx
    · next hkind =>
      refine .inr ⟨StreamTag.isFileData_of_treatment? (.inr (.inr hkind)), ?_⟩
      rcases decompress_error_iff.mp h with hsplit | ⟨address, packed, x, hsplit, hx, rfl⟩
      · exact .of_splitAddress hsplit
      · exact .contained hkind hsplit (Codecs.unwrap_error_iff.mp hx)
    · cases h
    · cases h
  · rintro (⟨hattributes, x, hx, rfl⟩ | ⟨hdata, hspoiled⟩)
    · have hkind : s.tag.kind?.bind Treatment.ofKind? = some .attributes :=
        StreamTag.treatment?_of_isAttributes hattributes
      simp only [treat, hkind, hx]
    · cases hspoiled with
      | address ho hshort =>
        have hsplit := Record.splitAddress_error_iff.mpr ⟨ho, hshort, rfl⟩
        rcases StreamTag.treatment?_of_isFileData hdata with hkind | hkind | hkind
        · have hkind : s.tag.kind?.bind Treatment.ofKind? = some .plain := hkind
          simp only [treat, hkind, hsplit]
        · rw [treat_inflate hkind]
          exact decompress_error_iff.mpr (.inl hsplit)
        · rw [treat_unwrap hkind]
          exact decompress_error_iff.mpr (.inl hsplit)
      | bare hkind hsplit hx =>
        rw [treat_inflate hkind]
        exact decompress_error_iff.mpr (.inr ⟨_, _, _, hsplit, hx, rfl⟩)
      | contained hkind hsplit hx =>
        rw [treat_unwrap hkind]
        exact decompress_error_iff.mpr
          (.inr ⟨_, _, _, hsplit, Codecs.unwrap_error_iff.mpr hx, rfl⟩)

theorem treat_unsupported (h : s.tag.treatment? = none) : (d.treat s).2 = .ok .nothing := by
  have hkind : s.tag.kind?.bind Treatment.ofKind? = none := h
  simp only [treat, hkind]

theorem scope_of_conclude (h : (conclude s (d.treat s)).2 = .error e) : e.scope = .job := by
  obtain ⟨he, hscope⟩ := conclude_error_iff.mp h
  rcases treat_error_iff.mp he with ⟨-, x, -, rfl⟩ | ⟨-, hspoiled⟩
  · rfl
  · exact absurd hspoiled.scope hscope

/-- A call that fails ends the job. -/
theorem scope_of_decode (h : (d.decode r).2 = .error e) : e.scope = .job := by
  obtain ⟨stats, -, -, -, ⟨x, -, hd⟩ | ⟨s, -, hd⟩⟩ := d.decode_cases r
  · rw [hd] at h
    cases h
    rfl
  · rw [hd] at h
    exact scope_of_conclude h

structure Reports (d : Decoder) (r : Record) (counts : DecoderStats)
    (answer : Except Failure Action) : Prop where
  /-- It fails exactly where the record is abandoned or its attributes cannot be read. -/
  failure (e : Failure) : answer = .error e ↔ (∃ x, d.Abandons r x ∧ e = .rehydration x) ∨
    ∃ s, d.Takes r s ∧ s.tag.isAttributes = true ∧
      ∃ x, d.unpacker s = .error x ∧ e = .attributes x
  scope (e : Failure) : answer = .error e → e.scope = .job
  /-- It is a fault exactly where content cannot be had, and tells where the record was found. -/
  fault (f : RecordFault) : answer = .ok (.fault f) ↔ ∃ s e, d.Takes r s ∧
    s.tag.isFileData = true ∧ s.IsSpoiled d.codecs d.scratch e ∧
      f = ⟨r.fileIndex, s.tag, r.blockNumber, e⟩
  records : counts.records = d.stats.records + 1
  errors : counts.errors = d.stats.errors + d.damage r + faults answer
  /-- A record for which nothing is done is passed over and counted, and no other is. -/
  passed (s : Record) : d.Takes r s → s.tag.treatment? = none →
    counts.unsupported = d.stats.unsupported + 1 ∧ answer = .ok .nothing
  supported : (∀ s, d.Takes r s → s.tag.treatment? ≠ none) →
    counts.unsupported = d.stats.unsupported

theorem Abandons.reports {stats : DecoderStats} (hx : d.Abandons r x)
    (hrecords : stats.records = d.stats.records + 1)
    (herrors : stats.errors = d.stats.errors + d.damage r)
    (hunsupported : stats.unsupported = d.stats.unsupported) :
    d.Reports r stats (.error (.rehydration x)) := by
  have hnever (s : Record) (hs : d.Takes r s) : False := hs.not_abandons hx
  refine ⟨fun e => ⟨?_, ?_⟩, ?_, fun f => ⟨nofun, ?_⟩, hrecords, herrors, ?_, fun _ => hunsupported⟩
  · rintro ⟨⟩
    exact .inl ⟨x, hx, rfl⟩
  · rintro (⟨y, hy, rfl⟩ | ⟨s, hs, -⟩)
    · have hsame := hx.2.1.symm.trans hy.2.1
      rw [Except.error.inj hsame]
    · exact (hnever s hs).elim
  · rintro e ⟨⟩
    rfl
  · rintro ⟨s, e, hs, -⟩
    exact (hnever s hs).elim
  · intro s hs
    exact (hnever s hs).elim

theorem Takes.reports {stats : DecoderStats} (hs : d.Takes r s)
    (hrecords : stats.records = d.stats.records + 1)
    (herrors : stats.errors = d.stats.errors + d.damage r)
    (hunsupported : stats.unsupported = d.stats.unsupported) :
    d.Reports r (conclude s (treat { d with stats } s)).1.stats
      (conclude s (treat { d with stats } s)).2 := by
  have hno := treat_ne_fault { d with stats } s
  obtain ⟨scratch, inflated, -, hleft⟩ := treat_leaves { d with stats } s
  have hcounts := congrArg Decoder.stats (conclude_leaves (s := s) hno)
  rw [hleft] at hcounts
  obtain ⟨hindex, hnumber⟩ := hs.place
  refine ⟨fun e => ?_, fun e he => ?_, fun f => ?_, ?_, ?_, fun t ht hnone => ?_, fun h => ?_⟩
  · rw [conclude_error_iff, treat_error_iff]
    constructor
    · rintro ⟨⟨ha, x, hx, rfl⟩ | ⟨-, hspoiled⟩, hscope⟩
      · exact .inr ⟨s, hs, ha, x, hx, rfl⟩
      · exact absurd hspoiled.scope hscope
    · rintro (⟨x, hx, -⟩ | ⟨t, ht, ha, x, hx, rfl⟩)
      · exact absurd hx hs.not_abandons
      · obtain rfl := hs.eq ht
        exact ⟨.inl ⟨ha, x, hx, rfl⟩, nofun⟩
  · exact scope_of_conclude he
  · rw [conclude_fault_iff hno]
    constructor
    · rintro ⟨e, he, hscope, rfl⟩
      rw [hindex, hnumber]
      rcases treat_error_iff.mp he with ⟨-, x, -, rfl⟩ | ⟨hdata, hspoiled⟩
      · cases hscope
      · exact ⟨s, e, hs, hdata, hspoiled, rfl⟩
    · rintro ⟨t, e, ht, hdata, hspoiled, rfl⟩
      obtain rfl := hs.eq ht
      rw [← hindex, ← hnumber]
      exact ⟨e, treat_error_iff.mpr (.inr ⟨hdata, hspoiled⟩), hspoiled.scope, rfl⟩
  · rw [hcounts]
    exact hrecords
  · rw [hcounts]
    exact congrArg (· + _) herrors
  · obtain rfl := hs.eq ht
    rw [hcounts, if_pos hnone]
    exact ⟨congrArg (· + 1) hunsupported, conclude_ok (treat_unsupported hnone)⟩
  · rw [hcounts, if_neg (h s hs)]
    exact hunsupported

/-- What a decoder answers to any record, in any state, and what it counts. -/
theorem reports_decode (d : Decoder) (r : Record) :
    d.Reports r (d.decode r).1.stats (d.decode r).2 := by
  obtain ⟨stats, hrecords, herrors, hunsupported, ⟨x, hx, hd⟩ | ⟨s, hs, hd⟩⟩ := d.decode_cases r
  · rw [hd]
    exact hx.reports hrecords herrors hunsupported
  · rw [hd]
    exact hs.reports hrecords herrors hunsupported

end Decoder
end BackupVolume
