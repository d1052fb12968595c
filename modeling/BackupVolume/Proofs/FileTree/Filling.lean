import BackupVolume.Proofs.FileTree.Making

/-! # Filling files

Writing into a file replaces what stands there; behind its end it appends, after zeros up to the
position, and so does lengthening.
Nothing but the content of this one file changes, and the outline of the tree stays as it is.
-/
namespace BackupVolume.FileTree

/-- Data take the place of what stands where they are written, and may reach behind its end. -/
theorem overwrite_eq (content : Array UInt8) {position : Nat} (h : position ≤ content.size)
    (data : Bytes) : (overwrite content position data).toList
      = content.toList.take position ++ (data ++ content.toList.drop (position + data.length)) := by
  induction data generalizing content position with
  | nil => simp [overwrite]
  | cons b data ih =>
    have hnext : position + (b :: data).length = position + 1 + data.length := by
      rw [List.length_cons]
      omega
    rw [overwrite, hnext]
    by_cases hinside : position < content.size
    · have hlong : position < content.toList.length := hinside
      rw [dif_pos hinside, ih _ (by rw [Array.size_set]; exact hinside), Array.toList_set,
        List.take_add_one, List.take_set_of_le (Nat.le_refl _), List.getElem?_set_self hlong,
        List.drop_set_of_lt (by omega)]
      simp
    · have hend : content.toList.length = position := by
        rw [Array.length_toList]
        omega
      rw [dif_neg hinside, ih _ (by rw [Array.size_push]; omega), Array.toList_push,
        List.take_of_length_le (by simp [hend]), List.take_of_length_le (Nat.le_of_eq hend),
        List.drop_of_length_le (by simp [hend]), List.drop_of_length_le (by omega)]
      simp

def padded (written : Bytes) (length : Nat) : Bytes :=
  written ++ List.replicate (length - written.length) 0

theorem length_padded {written : Bytes} {length : Nat} (h : written.length ≤ length) :
    (padded written length).length = length := by
  rw [padded, List.length_append, List.length_replicate]
  omega

theorem padded_add {written : Bytes} {address : Nat}
    (h : written.length ≤ address) (gap : Nat) :
    padded written (address + gap)
      = padded written address ++ List.replicate gap 0 := by
  have hsplit : address + gap - written.length = address - written.length + gap := by omega
  rw [padded, padded, hsplit, List.append_assoc, List.replicate_append_replicate]

/-- What a content is after data were written at a position: zeros fill the gap in front of them, and
without data nothing changes. -/
def overlaid (written : Bytes) (position : Nat) (data : Bytes) : Bytes :=
  if data.isEmpty then written
  else (padded written position).take position
    ++ (data ++ written.drop (position + data.length))

theorem overlaid_behind {written : Bytes} {position : Nat} (h : written.length ≤ position)
    (data : Bytes) : overlaid written position data
      = if data.isEmpty then written else padded written position ++ data := by
  rw [overlaid, List.take_of_length_le (Nat.le_of_eq (length_padded h)),
    List.drop_of_length_le (by omega), List.append_nil]

theorem lengthen_toArray (written : Bytes) (length : Nat) :
    lengthen written.toArray length = (padded written length).toArray := by
  simp [lengthen, padded]

/-- A file has this content now, and all else is as it was. -/
structure Filled (t u : FileTree) (node : Nat) (content : Bytes) : Prop where
  grows : Grows node t u
  outline : u.outline = t.outline
  content : u.content? node = some content.toArray

section Fill
variable {t : FileTree} {node : Nat} {written : Bytes}

theorem filled_self (h : t.content? node = some written.toArray) : Filled t t node written :=
  ⟨.refl node t, rfl, h⟩

theorem Filled.trans {u v : FileTree} {middle content : Bytes} (h : Filled t u node middle)
    (k : Filled u v node content) : Filled t v node content :=
  ⟨h.grows.trans k.grows, k.outline.trans h.outline, k.content⟩

/-- A change of a node that is a file and stays one. -/
theorem filled_modify (h : t.content? node = some written.toArray) {f : Node → Node}
    {content : Bytes} (hd : ∀ n, (f n).directory? = n.directory?)
    (ht : ∀ n, (f n).target? = n.target?)
    (hf : ∀ mode, ∃ mode', f (.file mode written.toArray) = .file mode' content.toArray) :
    Filled t { t with nodes := t.nodes.modify node f } node content := by
  have hnode : ∃ mode, t.nodes[node]? = some (.file mode written.toArray) := by
    rw [content?_eq] at h
    rcases hn : t.nodes[node]? with _ | ⟨mode, found⟩ | _ | _ <;> simp_all [Node.content?]
  obtain ⟨mode, hn⟩ := hnode
  obtain ⟨mode', hmode⟩ := hf mode
  refine ⟨grows_modify t node hd ht, ?_, ?_⟩
  · apply outline_modify_same
    intro n hsame
    rw [hn] at hsame
    cases hsame
    rw [hmode]
    rfl
  · rw [content?_eq]
    simp only [Array.getElem?_modify, if_true, hn, Option.map_some, Option.bind_some, hmode]
    rfl

theorem overwrite_lengthen (written : Bytes) (position : Nat) {data : Bytes} (hne : data ≠ []) :
    overwrite (lengthen written.toArray position) position data
      = (overlaid written position data).toArray := by
  have hlong : position ≤ (padded written position).length := by
    rw [padded, List.length_append, List.length_replicate]
    omega
  have hbehind : (padded written position).drop (position + data.length)
      = written.drop (position + data.length) := by
    have hzeros : (List.replicate (position - written.length) (0 : UInt8)).drop
        (position + data.length - written.length) = [] :=
      List.drop_of_length_le (by rw [List.length_replicate]; omega)
    rw [padded, List.drop_append, hzeros, List.append_nil]
  have hover := overwrite_eq (padded written position).toArray hlong data
  apply Array.toList_inj.mp
  rw [lengthen_toArray, hover, overlaid, if_neg (by simpa using hne), hbehind]

/-- Data are written over what is there, if the file does not get too long. -/
theorem filled_writeAt (h : t.content? node = some written.toArray) {position : Nat} {data : Bytes}
    (hm : data = [] ∨ position + data.length ≤ maxFileLength) :
    ∃ u, t.writeAt node position data = (u, .ok ()) ∧
      Filled t u node (overlaid written position data) := by
  by_cases hne : data = []
  · subst hne
    exact ⟨t, rfl, filled_self h⟩
  · unfold writeAt
    rw [if_neg (by simpa using hne), if_neg (Nat.not_lt.mpr (hm.resolve_left hne))]
    refine ⟨_, rfl, filled_modify h ?_ ?_ ?_⟩
    · intro n
      cases n <;> rfl
    · intro n
      cases n <;> rfl
    · intro mode
      exact ⟨mode, congrArg (Node.file mode) (overwrite_lengthen written position hne)⟩

theorem filled_extendTo (h : t.content? node = some written.toArray) {length : Nat}
    (hm : length ≤ maxFileLength) :
    ∃ u, t.extendTo node length = (u, .ok ()) ∧ Filled t u node (padded written length) := by
  unfold extendTo
  rw [h]
  simp only [List.size_toArray]
  by_cases hshort : length ≤ written.length
  · have hsame : padded written length = written := by
      rw [padded, Nat.sub_eq_zero_of_le hshort, List.replicate_zero, List.append_nil]
    rw [if_pos hshort, hsame]
    exact ⟨t, rfl, filled_self h⟩
  · rw [if_neg hshort, if_neg (by omega)]
    refine ⟨_, rfl, filled_modify h ?_ ?_ ?_⟩
    · intro n
      cases n <;> rfl
    · intro n
      cases n <;> rfl
    · intro mode
      exact ⟨mode, congrArg (Node.file mode) (lengthen_toArray written length)⟩

theorem filled_setMode (h : t.content? node = some written.toArray) {path : String}
    (hf : t.find true path = .ok node) (mode : Nat) :
    ∃ u, t.setMode path mode = (u, .ok ()) ∧ Filled t u node written := by
  unfold setMode
  rw [hf]
  refine ⟨_, rfl, filled_modify h ?_ ?_ ?_⟩
  · intro n
    cases n <;> rfl
  · intro n
    cases n <;> rfl
  · intro old
    exact ⟨mode, rfl⟩

end Fill

end BackupVolume.FileTree
