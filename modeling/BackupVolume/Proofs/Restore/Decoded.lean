import BackupVolume.Proofs.Restore.Stages

/-! # What a decoder makes of records

While records go by, a decoder changes its room and its counts and nothing else. Only an attribute
record describes a file, and only a data record has octets for one, also when the payload was
deduplicated.
-/
namespace BackupVolume.Decoder
variable {d e f : Decoder} {r : Record} {action : Action}

/-- The decoder `d` has become `e` while records went by. -/
def Continues (d e : Decoder) : Prop := ∃ scratch stats, e = { d with scratch, stats }

theorem Continues.refl (d : Decoder) : d.Continues d := ⟨d.scratch, d.stats, rfl⟩

theorem Continues.trans (h : d.Continues e) (h' : e.Continues f) : d.Continues f := by
  obtain ⟨_, _, rfl⟩ := h
  obtain ⟨scratch, stats, rfl⟩ := h'
  exact ⟨scratch, stats, rfl⟩

/-- The decoder decodes the record to the action when some others have gone by. -/
def Decodes (d : Decoder) (r : Record) (action : Action) : Prop :=
  ∃ e, d.Continues e ∧ (e.decode r).2 = .ok action

theorem Decodes.of_continues (h : d.Continues e) (hr : e.Decodes r action) :
    d.Decodes r action := by
  obtain ⟨f, hf, hdecode⟩ := hr
  exact ⟨f, h.trans hf, hdecode⟩

theorem continues_treat (d : Decoder) (r : Record) : d.Continues (d.treat r).1 := by
  obtain ⟨scratch, inflated, -, hleft⟩ := d.treat_leaves r
  rw [hleft]
  exact ⟨scratch, _, rfl⟩

theorem continues_decode (d : Decoder) (r : Record) : d.Continues (d.decode r).1 := by
  obtain ⟨stats, -, -, -, ⟨x, -, hd⟩ | ⟨s, -, hd⟩⟩ := d.decode_cases r
  · rw [hd]
    exact ⟨_, _, rfl⟩
  · have hcounted : d.Continues { d with stats } := ⟨_, _, rfl⟩
    rw [hd, conclude_leaves (treat_ne_fault { d with stats } s)]
    exact (hcounted.trans (continues_treat _ s)).trans ⟨_, _, rfl⟩

/-- An action that is no fault is what the payload was treated to. -/
theorem exists_treat_of_decode (h : (d.decode r).2 = .ok action)
    (hf : ∀ fault, action ≠ .fault fault) :
    ∃ (e : Decoder) (s : Record), s.tag.treatment? = r.tag.treatment? ∧
      (e.treat s).2 = .ok action := by
  obtain ⟨stats, -, -, -, ⟨x, -, hd⟩ | ⟨s, hs, hd⟩⟩ := d.decode_cases r
  · rw [hd] at h
    cases h
  · rw [hd] at h
    exact ⟨{ d with stats }, s, hs.treatment?_eq, of_conclude_ok h hf⟩

theorem errors_le_decode (d : Decoder) (r : Record) :
    d.stats.errors ≤ (d.decode r).1.stats.errors := by
  rw [errors_decode]
  omega

/-- A fault is counted as an error. -/
theorem errors_pos_of_fault {f : RecordFault} (h : (d.decode r).2 = .ok (.fault f)) :
    0 < (d.decode r).1.stats.errors := by
  rw [errors_decode, h]
  exact Nat.succ_pos _

theorem Decodes.isAttributes {a : Attributes} (h : d.Decodes r (.attributes a)) :
    r.tag.isAttributes = true := by
  obtain ⟨e, -, hdecode⟩ := h
  obtain ⟨f, s, hsame, htreat⟩ := exists_treat_of_decode hdecode fun _ hfault => by cases hfault
  rcases treat_ok htreat with ⟨hkind, -⟩ | ⟨-, _, _, hother⟩ | hother
  · rw [hsame] at hkind
    exact StreamTag.isAttributes_of_treatment? hkind
  · cases hother
  · cases hother

theorem Decodes.isFileData {address : Option Nat} {data : Bytes}
    (h : d.Decodes r (.write address data)) : r.tag.isFileData = true := by
  obtain ⟨e, -, hdecode⟩ := h
  obtain ⟨f, s, hsame, htreat⟩ := exists_treat_of_decode hdecode fun _ hfault => by cases hfault
  rcases treat_ok htreat with ⟨-, _, hother⟩ | ⟨hkind, -⟩ | hother
  · cases hother
  · rw [hsame] at hkind
    exact StreamTag.isFileData_of_treatment? hkind
  · cases hother

end BackupVolume.Decoder
