import BackupVolume.Proofs.Job.Ending
import BackupVolume.Proofs.Restore.Logging

/-! # What holds of a creator

An extraction calls its creator with the file that it has open, and with nothing else. What every
call keeps of the creator and of that file is therefore true at the end. A creator may be traced: the
states behind its calls are kept, with the files that were opened. What the calls keep as long as
something else holds is true of the trace as far as that held.
-/
namespace BackupVolume

namespace FileCreator

def opened? {η : Type} : Except IoFault (Disposition η) → Option η
  | .ok (.file handle) => some handle
  | _ => none

/-- What every call makes of a creator and the file that is open. -/
structure Carries {φ η : Type} [FileCreator φ η] (I J : φ → Option η → Prop) : Prop where
  create {c d : φ} {o : Option η} {a : Attributes} {x : Except IoFault (Disposition η)} :
    I c o → FileCreator.create c a = (d, x) → J d ((opened? x).or o)
  seek {c d : φ} {h : η} {address : Nat} {x : Except IoFault η} : I c (some h) →
    FileCreator.seek c h address = (d, x) → J d (some (x.toOption.getD h))
  write {c d : φ} {h : η} {data : Bytes} {x : Except IoFault η} : I c (some h) →
    FileCreator.write c h data = (d, x) → J d (some (x.toOption.getD h))
  finish {c d : φ} {h : η} {a : Attributes} {x : Except IoFault Unit} : I c (some h) →
    FileCreator.finish c h a = (d, x) → J d none
  abandon {c : φ} {o : Option η} : I c o → J c none

end FileCreator

namespace Extraction
variable {σ φ η : Type} [FileCreator φ η] {I : φ → Option η → Prop} {j : State φ η}

def Has (I : φ → Option η → Prop) (w : Extraction φ η) : Prop :=
  I w.creator (w.opened.map OpenFile.handle)

variable (hk : FileCreator.Carries I I)
include hk

theorem has_close (h : j.work.Has I) : (close j).1.work.Has I := by
  unfold close
  rcases ho : j.work.opened with _ | f
  · exact h
  · rw [Has, ho] at h
    rcases hf : FileCreator.finish j.work.creator f.handle f.attributes with ⟨creator, x⟩
    simp only [hf]
    exact hk.finish h hf

theorem has_openFile (h : j.work.Has I) (o : JobOptions) (filter : Selection.PathFilter)
    (a : Attributes) : (openFile o filter j a).work.Has I := by
  unfold openFile
  split
  · exact h
  split
  · exact h
  split
  · exact h
  rcases hc : FileCreator.create j.work.creator a with ⟨creator, e | ⟨handle⟩ | _ | _⟩
  all_goals exact hk.create h hc

theorem has_moveTo {f : OpenFile η} (ho : j.work.opened = some f) (h : j.work.Has I)
    (address : Option Nat) :
    (moveTo j f address).1.work.Has I ∧ ∀ g, (moveTo j f address).2 = .ok g →
      (moveTo j f address).1.work.opened = some g := by
  unfold moveTo
  rcases address with _ | address
  · exact ⟨h, by rintro g ⟨⟩; exact ho⟩
  simp only
  split
  · exact ⟨h, by rintro g ⟨⟩; exact ho⟩
  have hopen : I j.work.creator (some f.handle) := by
    rw [Has, ho] at h
    exact h
  rcases hs : FileCreator.seek j.work.creator f.handle address with ⟨creator, e | handle⟩
  · refine ⟨?_, by rintro g ⟨⟩⟩
    rw [Has, ho]
    exact hk.seek hopen hs
  · refine ⟨hk.seek hopen hs, ?_⟩
    rintro g ⟨⟩
    rfl

theorem has_write (h : j.work.Has I) (address : Option Nat) (data : Bytes) :
    (write j address data).1.work.Has I := by
  unfold write
  simp only
  rcases ho : j.work.opened with _ | f
  · exact h
  obtain ⟨hmoved, hopened⟩ := has_moveTo hk (j := { j with
    counts := { j.counts with bytes := j.counts.bytes + data.length } }) ho h address
  simp only
  rcases hm : moveTo { j with
    counts := { j.counts with bytes := j.counts.bytes + data.length } } f address with ⟨k, e | g⟩
  all_goals rw [hm] at hmoved hopened
  · exact hmoved
  · have hg : k.work.opened = some g := hopened g rfl
    have hopen : I k.work.creator (some g.handle) := by
      rw [Has, hg] at hmoved
      exact hmoved
    simp only
    rcases hw : FileCreator.write k.work.creator g.handle data with ⟨creator, e | handle⟩
    · simp only
      rw [Has, hg]
      exact hk.write hopen hw
    · exact hk.write hopen hw

theorem has_decode (h : j.work.Has I) (o : JobOptions) (filter : Selection.PathFilter)
    (r : Record) : (decode o filter j r).1.work.Has I := by
  unfold decode
  rcases j.work.decoder.decode r with ⟨decoder, e | action⟩
  · exact h
  have hdecoded : ({ j with work := { j.work with decoder } } : State φ η).work.Has I := h
  cases action with
  | attributes a => exact has_openFile hk hdecoded o filter a
  | write address data => exact has_write hk hdecoded address data
  | nothing => exact h
  | fault f =>
    simp only [perform]
    split
    · exact h
    · exact hk.abandon h

theorem has_handle (h : j.work.Has I) (o : JobOptions) (filter : Selection.PathFilter)
    (r : Record) : (handle o filter j r).1.work.Has I := by
  unfold handle
  split
  · have hclosed := has_close hk h
    rcases hc : close j with ⟨k, e | ⟨⟨⟩⟩⟩
    all_goals rw [hc] at hclosed
    · exact hclosed
    · exact has_decode hk hclosed o filter r
  split
  · exact h
  · exact has_decode hk h o filter r

/-- What all calls keep is true at the end, whatever the volume holds. -/
theorem has_run [BlockSource σ] (o : JobOptions) (rules : Rules) (filter : Selection.PathFilter)
    (decoder : Decoder) (key : Option VolumeKey) {creator : φ} (source : σ) (h : I creator none) :
    ∃ opened, I (run o rules filter decoder key creator source).creator opened := by
  rcases hjob : Job.run o.proceed rules (handle o filter) { creator, decoder }
    ({ source, verify := o.verifyChecksums, key } : VolumeReader σ) with ⟨k, s, x⟩
  obtain ⟨rs, -, hworked⟩ := Job.exists_worked hjob
  have hall : k.work.Has I := by
    clear hjob
    generalize k.work = w at hworked
    induction hworked with
    | none => exact h
    | @more _ r _ _ _ _ hstep ih =>
      have hnext := has_handle hk ih o filter r
      rw [hstep] at hnext
      exact hnext
  rw [run_eq hjob rfl]
  exact ⟨_, has_close hk hall⟩

end Extraction

structure Traced (φ η : Type) where
  creator : φ
  steps : List (φ × Option η) := []

namespace Traced
variable {φ η : Type}

def step (c : Traced φ η) (creator : φ) (opened : Option η) : Traced φ η :=
  ⟨creator, c.steps ++ [(creator, opened)]⟩

variable [FileCreator φ η]

instance : FileCreator (Traced φ η) η where
  create c a :=
    let (creator, x) := FileCreator.create c.creator a
    (c.step creator (FileCreator.opened? x), x)
  path c := FileCreator.path c.creator
  seek c h address :=
    let (creator, x) := FileCreator.seek c.creator h address
    (c.step creator none, x)
  write c h data :=
    let (creator, x) := FileCreator.write c.creator h data
    (c.step creator none, x)
  finish c h a :=
    let (creator, x) := FileCreator.finish c.creator h a
    (c.step creator none, x)

theorem create_eq {c : Traced φ η} {a : Attributes} {creator : φ}
    {x : Except IoFault (Disposition η)} (h : FileCreator.create c.creator a = (creator, x)) :
    FileCreator.create c a = (c.step creator (FileCreator.opened? x), x) := by
  simp only [FileCreator.create, h]

def untraced : FileCreator.Hom (Traced φ η) φ where
  state := creator
  handle := id
  create c a := by
    simp only [FileCreator.create]
    rcases FileCreator.create c.creator a with ⟨x, e | ⟨handle⟩ | _ | _⟩ <;> rfl
  path _ _ := rfl
  seek c h address := by
    simp only [FileCreator.seek, id_eq]
    rcases FileCreator.seek c.creator h address with ⟨x, e | handle⟩ <;> rfl
  write c h data := by
    simp only [FileCreator.write, id_eq]
    rcases FileCreator.write c.creator h data with ⟨x, e | handle⟩ <;> rfl
  finish _ _ _ := rfl

section Hold
variable {G : φ → Prop} {P : φ → Option η → Prop} {start : φ} {c : Traced φ η} {o : Option η}

/-- The last state of a trace is that of its creator, and what calls keep as long as `G` holds is
true of every state that has only states with `G` before it. -/
structure Holds (G : φ → Prop) (P : φ → Option η → Prop) (start : φ) (c : Traced φ η)
    (o : Option η) : Prop where
  last : c.creator = (c.steps.getLast?.map Prod.fst).getD start
  steps {before after : List (φ × Option η)} {q : φ × Option η} :
    c.steps = before ++ q :: after → (∀ p ∈ before, G p.1) → P q.1 q.2
  now : (∀ p ∈ c.steps, G p.1) → P c.creator o

omit [FileCreator φ η] in
theorem Holds.good (h : Holds G P start c o) (hs : G start) (hg : ∀ p ∈ c.steps, G p.1) :
    G c.creator := by
  rw [h.last]
  rcases hlast : c.steps.getLast? with _ | p
  · exact hs
  · exact hg p (List.mem_of_getLast? hlast)

omit [FileCreator φ η] in
theorem Holds.step (h : Holds G P start c o) (hs : G start) {d : φ} {opened left : Option η}
    (hnext : P c.creator o → G c.creator → P d opened ∧ P d left) :
    Holds G P start (c.step d opened) left := by
  have hgo (hg : ∀ p ∈ c.steps, G p.1) : P d opened ∧ P d left :=
    hnext (h.now hg) (h.good hs hg)
  constructor
  · simp [Traced.step]
  · intro before after q hsplit hg
    rw [Traced.step] at hsplit
    rcases List.eq_nil_or_concat after with rfl | ⟨after, last, rfl⟩
    · obtain ⟨rfl, hq⟩ := List.append_inj' hsplit rfl
      cases hq
      exact (hgo hg).1
    · rw [List.concat_eq_append, ← List.cons_append, ← List.append_assoc] at hsplit
      exact h.steps (List.append_inj' hsplit rfl).1 hg
  · intro hg
    exact (hgo fun p hp => hg p (List.mem_append_left _ hp)).2

/-- What calls keep as long as `G` holds is kept of the trace. -/
theorem carries_holds (ht : FileCreator.Carries (fun c o => P c o ∧ G c) P)
    (hdrop : ∀ {c : φ} {o : Option η}, P c o → P c none) (hs : G start) :
    FileCreator.Carries (Holds G P start) (Holds G P start) where
  create {c d o a x} h hc := by
    rcases hcall : FileCreator.create c.creator a with ⟨e, y⟩
    rw [create_eq hcall, Prod.mk.injEq] at hc
    obtain ⟨rfl, rfl⟩ := hc
    refine h.step hs fun hp hg => ?_
    have hnext := ht.create ⟨hp, hg⟩ hcall
    refine ⟨?_, hnext⟩
    rcases hopened : FileCreator.opened? y with _ | handle
    · exact hdrop hnext
    · rw [hopened] at hnext
      exact hnext
  seek {c d handle address x} h hc := by
    rcases hcall : FileCreator.seek c.creator handle address with ⟨e, y⟩
    simp only [FileCreator.seek, hcall, Prod.mk.injEq] at hc
    obtain ⟨rfl, rfl⟩ := hc
    refine h.step hs fun hp hg => ?_
    have hnext := ht.seek ⟨hp, hg⟩ hcall
    exact ⟨hdrop hnext, hnext⟩
  write {c d handle data x} h hc := by
    rcases hcall : FileCreator.write c.creator handle data with ⟨e, y⟩
    simp only [FileCreator.write, hcall, Prod.mk.injEq] at hc
    obtain ⟨rfl, rfl⟩ := hc
    refine h.step hs fun hp hg => ?_
    have hnext := ht.write ⟨hp, hg⟩ hcall
    exact ⟨hdrop hnext, hnext⟩
  finish {c d handle a x} h hc := by
    rcases hcall : FileCreator.finish c.creator handle a with ⟨e, y⟩
    simp only [FileCreator.finish, hcall, Prod.mk.injEq] at hc
    obtain ⟨rfl, rfl⟩ := hc
    refine h.step hs fun hp hg => ?_
    have hnext := ht.finish ⟨hp, hg⟩ hcall
    exact ⟨hnext, hnext⟩
  abandon h := ⟨h.last, h.steps, fun hg => hdrop (h.now hg)⟩

end Hold

end Traced
end BackupVolume
