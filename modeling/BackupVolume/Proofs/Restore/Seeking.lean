import BackupVolume.Proofs.Restore.Calls
import BackupVolume.Proofs.Restore.LocalFiles

/-! # Seeks that are left out

An extraction moves a file only where data carry an address other than the one that it has kept track
of. As long as that fits into 64 bits it is where the file stands, so that the file gets the content
that it gets from being moved before all data.
-/
namespace BackupVolume

/-- How the files of a creator are seen: those that are open have a content and a position. Moving
changes the position alone; data are written where the file stands, and leave it behind them. -/
structure FileCreator.View (φ : Type) {η : Type} [FileCreator φ η] where
  IsOpen : φ → η → Prop
  content : φ → η → Bytes
  position : φ → η → Nat
  seek {c d : φ} {h g : η} {address : Nat} : IsOpen c h →
    FileCreator.seek c h address = (d, .ok g) →
    IsOpen d g ∧ content d g = content c h ∧ position d g = address
  write {c d : φ} {h g : η} {data : Bytes} : IsOpen c h → FileCreator.write c h data = (d, .ok g) →
    IsOpen d g ∧ content d g = FileTree.overlaid (content c h) (position c h) data ∧
      position d g = position c h + data.length

def endOf (next : Nat) (x : Option Nat × Bytes) : Nat := x.1.getD next + x.2.length

/-- The content of a file into which data are written one after another, each at its address or where
the data before it ended. -/
def contentBehind : (content : Bytes) → (next : Nat) → List (Option Nat × Bytes) → Bytes
  | content, _, [] => content
  | content, next, x :: xs =>
    contentBehind (FileTree.overlaid content (x.1.getD next) x.2) (endOf next x) xs

/-- How many data carry an address other than the end of the data before. -/
def jumps : (next : Nat) → List (Option Nat × Bytes) → Nat
  | _, [] => 0
  | next, x :: xs => (if x.1.getD next = next then 0 else 1) + jumps (endOf next x) xs

/-- Writes data one after another, and moves the file before each of them: to its address, or to where
the data before it ended. -/
def FileCreator.placeAll {φ η : Type} [FileCreator φ η] (c : φ) (h : η) :
    (next : Nat) → List (Option Nat × Bytes) → φ × Except IoFault η
  | _, [] => (c, .ok h)
  | next, x :: xs =>
    match FileCreator.seek c h (x.1.getD next) with
    | (c, .error e) => (c, .error e)
    | (c, .ok h) =>
      match FileCreator.write c h x.2 with
      | (c, .error e) => (c, .error e)
      | (c, .ok h) => placeAll c h (endOf next x) xs

/-- Moving before all data gives the content that the addresses tell. -/
theorem FileCreator.View.placeAll {φ η : Type} [FileCreator φ η] (v : FileCreator.View φ)
    {c d : φ} {h g : η} {next : Nat} {xs : List (Option Nat × Bytes)} (ho : v.IsOpen c h)
    (hok : FileCreator.placeAll c h next xs = (d, .ok g)) :
    v.content d g = contentBehind (v.content c h) next xs := by
  induction xs generalizing c h next with
  | nil =>
    cases hok
    rfl
  | cons x xs ih =>
    rw [FileCreator.placeAll] at hok
    rcases hseek : FileCreator.seek c h (x.1.getD next) with ⟨c₁, e | h₁⟩
    · simp [hseek] at hok
    rcases hwrite : FileCreator.write c₁ h₁ x.2 with ⟨c₂, e | h₂⟩
    · simp [hseek, hwrite] at hok
    simp only [hseek, hwrite] at hok
    obtain ⟨ho₁, hcontent₁, hposition₁⟩ := v.seek ho hseek
    obtain ⟨ho₂, hcontent₂, -⟩ := v.write ho₁ hwrite
    rw [ih ho₂ hok, contentBehind, hcontent₂, hcontent₁, hposition₁]

def LocalFiles.view : FileCreator.View LocalFiles where
  IsOpen c f := (c.tree.content? f.node).isSome
  content c f := ((c.tree.content? f.node).getD #[]).toList
  position _ f := f.position
  seek {c d h g address} ho hseek := by
    simp only [FileCreator.seek, LocalFiles.seek] at hseek
    split at hseek
    · cases hseek
    · cases hseek
      exact ⟨ho, rfl, rfl⟩
  write {c d h g data} ho hwrite := by
    obtain ⟨content, hcontent⟩ := Option.isSome_iff_exists.mp ho
    have hlist : c.tree.content? h.node = some content.toList.toArray := hcontent
    by_cases hm : data = [] ∨ h.position + data.length ≤ FileTree.maxFileLength
    · obtain ⟨t, hok, hfilled⟩ := LocalFiles.write_overlaid hlist hm
      cases hok.symm.trans hwrite
      refine ⟨?_, ?_, rfl⟩
      · rw [hfilled.content]
        rfl
      · rw [hfilled.content, hcontent]
        rfl
    · obtain ⟨hne, hlong⟩ := not_or.mp hm
      simp only [FileCreator.write, LocalFiles.write, FileTree.writeAt] at hwrite
      rw [if_neg (by simpa using hne), if_pos (Nat.lt_of_not_le hlong)] at hwrite
      cases hwrite

namespace Extraction
variable {φ η : Type} [FileCreator φ η] {v : FileCreator.View φ} {j k : State φ η}

def writeAll (j : State φ η) : List (Option Nat × Bytes) → State φ η × Except Failure Unit
  | [] => (j, .ok ())
  | x :: xs =>
    match write j x.1 x.2 with
    | (j, .error e) => (j, .error e)
    | (j, .ok ()) => writeAll j xs

theorem writeAll_append {i : State φ η} {xs ys : List (Option Nat × Bytes)}
    (h : writeAll j (xs ++ ys) = (k, .ok ())) (hi : i = (writeAll j xs).1) :
    writeAll j xs = (i, .ok ()) ∧ writeAll i ys = (k, .ok ()) := by
  subst hi
  induction xs generalizing j with
  | nil => exact ⟨rfl, h⟩
  | cons x xs ih =>
    rw [List.cons_append, writeAll] at h
    rw [writeAll]
    rcases hwrite : write j x.1 x.2 with ⟨i, e | ⟨⟨⟩⟩⟩
    · simp [hwrite] at h
    · simp only [hwrite] at h ⊢
      exact ih h

structure Tracks (v : FileCreator.View φ) (j : State φ η) (f : OpenFile η) : Prop where
  opened : j.work.opened = some f
  isOpen : v.IsOpen j.work.creator f.handle
  address : f.address.toNat = v.position j.work.creator f.handle

/-- Moving keeps the content; a seek is made, and counted, where the address is another one. -/
theorem Tracks.moveTo {f g : OpenFile η} (h : Tracks v j f) {address : Option Nat}
    (hfits : address.getD f.address.toNat < 2 ^ 64) (hok : moveTo j f address = (k, .ok g)) :
    Tracks v k g ∧
      v.content k.work.creator g.handle = v.content j.work.creator f.handle ∧
      g.address.toNat = address.getD f.address.toNat ∧
      k.counts.seeks
        = j.counts.seeks + (if address.getD f.address.toNat = f.address.toNat then 0 else 1) := by
  cases address with
  | none =>
    cases hok
    exact ⟨h, rfl, rfl, (Nat.add_zero _).symm.trans (by rw [Option.getD_none, if_pos rfl])⟩
  | some address =>
    rw [Option.getD_some] at hfits ⊢
    by_cases hstays : address = f.address.toNat
    · rw [Extraction.moveTo, if_pos hstays] at hok
      cases hok
      rw [if_pos hstays]
      exact ⟨h, rfl, hstays.symm, rfl⟩
    · rw [Extraction.moveTo, if_neg hstays] at hok
      rcases hseek : FileCreator.seek j.work.creator f.handle address with ⟨creator, e | handle⟩
      · simp [hseek] at hok
      · simp only [hseek] at hok
        cases hok
        obtain ⟨hopen, hcontent, hposition⟩ := v.seek h.isOpen hseek
        have haddress : address.toUInt64.toNat = address := UInt64.toNat_ofNat_of_lt' hfits
        rw [if_neg hstays]
        exact ⟨⟨rfl, hopen, haddress.trans hposition.symm⟩, hcontent, haddress, rfl⟩

/-- Data are written at their address, or where the file has got to. -/
theorem Tracks.write {f : OpenFile η} (h : Tracks v j f) {x : Option Nat × Bytes}
    (hfits : endOf f.address.toNat x < 2 ^ 64) (hok : write j x.1 x.2 = (k, .ok ())) :
    ∃ g, Tracks v k g ∧
      v.content k.work.creator g.handle
        = FileTree.overlaid (v.content j.work.creator f.handle) (x.1.getD f.address.toNat) x.2 ∧
      g.address.toNat = endOf f.address.toNat x ∧
      k.counts.seeks
        = j.counts.seeks + (if x.1.getD f.address.toNat = f.address.toNat then 0 else 1) := by
  have hcounted : Tracks v
      { j with counts := { j.counts with bytes := j.counts.bytes + x.2.length } } f :=
    ⟨h.opened, h.isOpen, h.address⟩
  simp only [Extraction.write, h.opened] at hok
  rcases hmove : Extraction.moveTo { j with
    counts := { j.counts with bytes := j.counts.bytes + x.2.length } } f x.1 with ⟨m, e | g⟩
  · simp [hmove] at hok
  simp only [hmove] at hok
  rw [endOf] at hfits
  obtain ⟨hm, hcontent, haddress, hseeks⟩ := hcounted.moveTo (by omega) hmove
  rcases hwrite : FileCreator.write m.work.creator g.handle x.2 with ⟨creator, e | handle⟩
  · simp [hwrite] at hok
  simp only [hwrite] at hok
  cases hok
  obtain ⟨hopen, hwritten, hposition⟩ := v.write hm.isOpen hwrite
  rw [← haddress] at hfits
  have hbehind : (g.address + x.2.length.toUInt64).toNat = g.address.toNat + x.2.length := by
    have hlength : x.2.length.toUInt64.toNat = x.2.length :=
      UInt64.toNat_ofNat_of_lt' (Nat.lt_of_le_of_lt (Nat.le_add_left _ _) hfits)
    rw [UInt64.toNat_add, hlength, Nat.mod_eq_of_lt hfits]
  refine ⟨_, ⟨rfl, hopen, ?_⟩, ?_, ?_, hseeks⟩
  · rw [hbehind, hposition, ← hm.address]
  · rw [hwritten, hcontent, ← hm.address, haddress]
  · rw [hbehind, haddress, endOf]

/-- Data that are written one after another leave the file with the content that their addresses tell,
where the last of them ended. -/
theorem Tracks.writeAll {f : OpenFile η} (h : Tracks v j f) {xs : List (Option Nat × Bytes)}
    (hfits : ∀ n ≤ xs.length, (xs.take n).foldl endOf f.address.toNat < 2 ^ 64)
    (hok : writeAll j xs = (k, .ok ())) :
    ∃ g, Tracks v k g ∧
      v.content k.work.creator g.handle
        = contentBehind (v.content j.work.creator f.handle) f.address.toNat xs ∧
      g.address.toNat = xs.foldl endOf f.address.toNat ∧
      k.counts.seeks = j.counts.seeks + jumps f.address.toNat xs := by
  induction xs generalizing j f with
  | nil =>
    cases hok
    exact ⟨f, h, rfl, rfl, rfl⟩
  | cons x xs ih =>
    rw [Extraction.writeAll] at hok
    rcases hwrite : Extraction.write j x.1 x.2 with ⟨m, e | ⟨⟨⟩⟩⟩
    · simp [hwrite] at hok
    simp only [hwrite] at hok
    obtain ⟨g, hg, hcontent, haddress, hseeks⟩ := h.write (hfits 1 (by simp)) hwrite
    have hrest : ∀ n ≤ xs.length, (xs.take n).foldl endOf g.address.toNat < 2 ^ 64 := by
      intro n hn
      rw [haddress]
      exact hfits (n + 1) (Nat.succ_le_succ hn)
    obtain ⟨l, hl, hcontent', haddress', hseeks'⟩ := ih hg hrest hok
    refine ⟨l, hl, ?_, ?_, ?_⟩
    · rw [hcontent', hcontent, haddress, contentBehind]
    · rw [haddress', haddress, List.foldl_cons]
    · rw [hseeks', hseeks, haddress, jumps, Nat.add_assoc]

/-- Whatever data are written into an open file one after another, as long as they all end within 64
bits, the file gets the content that their addresses tell, which is also what it gets from being moved
before all of them. After any number of them the file stands where the extraction keeps track of it,
at the end of the last data, and a seek is counted for each address that is not the end of the data
before. -/
theorem elides_writeAll (v : FileCreator.View φ) {f : OpenFile η} {xs : List (Option Nat × Bytes)}
    (hf : j.work.opened = some f) (ho : v.IsOpen j.work.creator f.handle)
    (hstart : f.address.toNat = v.position j.work.creator f.handle)
    (hfits : ∀ n ≤ xs.length, (xs.take n).foldl endOf f.address.toNat < 2 ^ 64)
    (hok : writeAll j xs = (k, .ok ())) :
    (∃ g, k.work.opened = some g ∧
      v.content k.work.creator g.handle
        = contentBehind (v.content j.work.creator f.handle) f.address.toNat xs ∧
      ∀ d h, FileCreator.placeAll j.work.creator f.handle f.address.toNat xs = (d, .ok h) →
        v.content k.work.creator g.handle = v.content d h) ∧
      k.counts.seeks = j.counts.seeks + jumps f.address.toNat xs ∧
      ∀ n, ∃ i g, writeAll j (xs.take n) = (i, .ok ()) ∧ i.work.opened = some g ∧
        g.address.toNat = v.position i.work.creator g.handle ∧
        g.address.toNat = (xs.take n).foldl endOf f.address.toNat := by
  have htracks : Tracks v j f := ⟨hf, ho, hstart⟩
  obtain ⟨g, hg, hcontent, -, hseeks⟩ := htracks.writeAll hfits hok
  refine ⟨⟨g, hg.opened, hcontent, fun d h hplace => ?_⟩, hseeks, fun n => ?_⟩
  · rw [hcontent, v.placeAll ho hplace]
  · have hsplit := hok
    rw [← List.take_append_drop n xs] at hsplit
    have hfirst := (writeAll_append hsplit rfl).1
    have hearlier : ∀ m ≤ (xs.take n).length,
        ((xs.take n).take m).foldl endOf f.address.toNat < 2 ^ 64 := by
      intro m hm
      rw [List.length_take] at hm
      rw [List.take_take, Nat.min_eq_left (by omega)]
      exact hfits m (by omega)
    obtain ⟨m, hm, -, haddress, -⟩ := htracks.writeAll hearlier hfirst
    exact ⟨_, m, hfirst, hm.opened, hm.address, haddress⟩

/-- Data behind a gap, at an address already reached, over what was written before, and none at all:
two seeks are made instead of six. -/
theorem elides_writeAll_jumps :
    let c : LocalFiles := ⟨⟨#[.directory 0o755 0 [("a", 1)], .file 0o644 #[]], 0⟩, "/"⟩
    let f : OpenFile LocalFile := ⟨⟨1, "/a", 0⟩, ⟨1, 3, "a", {}, "", "", 0⟩, 0⟩
    let j : State LocalFiles LocalFile := { work := ⟨c, .create {}, some f⟩ }
    let xs : List (Option Nat × Bytes) :=
      [(some 0, [1, 2, 3]), (none, [4]), (some 6, [5]), (some 7, []), (some 1, [9, 9]), (none, [8])]
    j.work.opened = some f ∧ LocalFiles.view.IsOpen c f.handle ∧
      f.address.toNat = LocalFiles.view.position c f.handle ∧
      (∀ n ≤ xs.length, (xs.take n).foldl endOf f.address.toNat < 2 ^ 64) ∧
      ∃ k, writeAll j xs = (k, .ok ()) ∧ k.counts.seeks = 2 ∧
        (∃ g, k.work.opened = some g ∧
          LocalFiles.view.content k.work.creator g.handle = [1, 9, 9, 8, 0, 0, 5] ∧
          ∃ d h, FileCreator.placeAll c f.handle 0 xs = (d, .ok h) ∧
            LocalFiles.view.content k.work.creator g.handle = LocalFiles.view.content d h) := by
  intro c f j xs
  have hok : writeAll j xs = ((writeAll j xs).1, .ok ()) := rfl
  have hopen : LocalFiles.view.IsOpen c f.handle := rfl
  have hfits : ∀ n ≤ xs.length, (xs.take n).foldl endOf f.address.toNat < 2 ^ 64 := by decide
  obtain ⟨⟨g, hg, hcontent, hsame⟩, hseeks, -⟩ :=
    elides_writeAll LocalFiles.view (j := j) (f := f) rfl hopen rfl hfits hok
  have hplace : FileCreator.placeAll c f.handle 0 xs
      = ((FileCreator.placeAll c f.handle 0 xs).1, .ok ⟨1, "/a", 4⟩) := rfl
  refine ⟨rfl, hopen, rfl, hfits, _, hok, ?_, g, hg, ?_, _, _, hplace, ?_⟩
  · rw [hseeks]
    decide
  · rw [hcontent]
    decide
  · exact hsame _ _ hplace

end Extraction
end BackupVolume
