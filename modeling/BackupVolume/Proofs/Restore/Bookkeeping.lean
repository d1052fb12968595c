import BackupVolume.Proofs.Restore.Decoded
import BackupVolume.Proofs.Restore.Logging

/-! # Keeping books on files

Every record that an extraction works on does at most one thing to files: it closes the one that is
open, opens the next one, or fills the one that is open. So whatever has been done to a file is
accounted for by the record that opened it and by data records behind that one, with no other
attribute record among them.
-/
namespace BackupVolume

structure FileBook where
  log : List FileEvent := []
  files : Nat := 0
  current : Option Nat := none

namespace FileBook

def closed (b : FileBook) : FileBook := { b with current := none }

def opened (b : FileBook) (a : Attributes) : FileBook :=
  ⟨b.log ++ [.opened b.files a], b.files + 1, some b.files⟩

def wrote (b : FileBook) (n : Nat) (data : Bytes) : FileBook :=
  { b with log := b.log ++ [.wrote n data] }

inductive Change (d : Decoder) (r : Record) (b : FileBook) : FileBook → Option FileEvent → Prop
  | keep (other : r.tag.isAttributes = false) : Change d r b b none
  | close : Change d r b b.closed none
  | opening {a : Attributes} (decodes : d.Decodes r (.attributes a)) :
    Change d r b (b.opened a) (some (.opened b.files a))
  | writing {n : Nat} {address : Option Nat} {data : Bytes} (current : b.current = some n)
    (decodes : d.Decodes r (.write address data)) :
    Change d r b (b.wrote n data) (some (.wrote n data))

namespace Change
variable {d e : Decoder} {r : Record} {b c : FileBook} {event : Option FileEvent}

theorem of_continues (hd : d.Continues e) (h : Change e r b c event) : Change d r b c event := by
  cases h with
  | keep other => exact .keep other
  | close => exact .close
  | opening decodes => exact .opening (decodes.of_continues hd)
  | writing current decodes => exact .writing current (decodes.of_continues hd)

theorem same (h : r.tag.isAttributes = true → b.current = none) : Change d r b b none := by
  cases hr : r.tag.isAttributes with
  | false => exact .keep hr
  | true =>
    have hclosed : b.closed = b := by rw [closed, ← h hr]
    have hclose : Change d r b b.closed none := .close
    rwa [hclosed] at hclose

theorem of_closed (h : Change d r b.closed c event) : Change d r b c event := by
  cases h with
  | keep => exact .close
  | close => exact .close
  | opening decodes => exact .opening decodes
  | writing current => cases current

theorem log (h : Change d r b c event) : c.log = b.log ++ event.toList := by
  cases h with
  | keep => exact (List.append_nil b.log).symm
  | close => exact (List.append_nil b.log).symm
  | opening => rfl
  | writing => rfl

end Change

/-- The record that opened the file, and no record behind it that describes another one. -/
def OpenSince (d : Decoder) (worked : List (Record × Option FileEvent)) (n : Nat) : Prop :=
  ∃ before a attributes between,
    worked = before ++ (a, some (.opened n attributes)) :: between ∧
    d.Decodes a (.attributes attributes) ∧ ∀ q ∈ between, q.1.tag.isAttributes = false

theorem OpenSince.snoc {d : Decoder} {worked : List (Record × Option FileEvent)} {n : Nat}
    (h : OpenSince d worked n) {r : Record} (hr : r.tag.isAttributes = false)
    (event : Option FileEvent) : OpenSince d (worked ++ [(r, event)]) n := by
  obtain ⟨before, a, attributes, between, rfl, hdecodes, hbetween⟩ := h
  refine ⟨before, a, attributes, between ++ [(r, event)], ?_, hdecodes, fun q hq => ?_⟩
  · rw [List.append_assoc, List.cons_append]
  · rcases List.mem_append.mp hq with hq | hq
    · exact hbetween q hq
    · rw [List.mem_singleton.mp hq]
      exact hr

structure Accounts (d : Decoder) (b : FileBook) (worked : List (Record × Option FileEvent)) :
    Prop where
  log : b.log = worked.filterMap Prod.snd
  openings : b.log.filterMap FileEvent.opening? = List.range b.files
  current : ∀ n, b.current = some n → OpenSince d worked n
  writings : ∀ before r n data after, worked = before ++ (r, some (.wrote n data)) :: after →
    (∃ address, d.Decodes r (.write address data)) ∧ OpenSince d before n

theorem accounts_nil (d : Decoder) : Accounts d {} [] := by
  refine ⟨rfl, rfl, fun n hn => ?_, fun before r n data after h => ?_⟩
  · cases hn
  · exact absurd h.symm (List.append_ne_nil_of_right_ne_nil _ (List.cons_ne_nil _ _))

theorem eq_or_eq_of_snoc {α : Type} {xs before after : List α} {x y : α}
    (h : xs ++ [x] = before ++ y :: after) :
    xs = before ∧ x = y ∨ ∃ rest, xs = before ++ y :: rest := by
  rcases List.eq_nil_or_concat after with rfl | ⟨rest, z, rfl⟩
  · obtain ⟨hinit, hlast⟩ := List.append_inj' h rfl
    exact .inl ⟨hinit, (List.cons.inj hlast).1⟩
  · rw [List.concat_eq_append, ← List.cons_append, ← List.append_assoc] at h
    exact .inr ⟨rest, (List.append_inj' h rfl).1⟩

/-- What one more record does is accounted for by that record. -/
theorem Accounts.step {d : Decoder} {b c : FileBook} {worked : List (Record × Option FileEvent)}
    (h : Accounts d b worked) {r : Record} {event : Option FileEvent}
    (hc : Change d r b c event) : Accounts d c (worked ++ [(r, event)]) := by
  refine ⟨?_, ?_, ?_, ?_⟩
  · rw [hc.log, h.log, List.filterMap_append]
    cases event <;> rfl
  · rw [hc.log, List.filterMap_append, h.openings]
    cases hc with
    | keep => exact List.append_nil _
    | close => exact List.append_nil _
    | opening => exact List.range_succ.symm
    | writing => exact List.append_nil _
  · intro n hn
    cases hc with
    | keep other => exact (h.current n hn).snoc other none
    | close => cases hn
    | @opening a decodes =>
      cases hn
      exact ⟨worked, r, a, [], rfl, decodes, by simp⟩
    | writing current decodes =>
      have hdata := StreamTag.isAttributes_of_isFileData decodes.isFileData
      rw [Bool.or_eq_false_iff] at hdata
      exact (h.current n hn).snoc hdata.1 _
  · intro before q n data after hsplit
    rcases eq_or_eq_of_snoc hsplit with ⟨rfl, hlast⟩ | ⟨rest, hrest⟩
    · cases hlast
      cases hc with
      | writing current decodes => exact ⟨⟨_, decodes⟩, h.current _ current⟩
    · exact h.writings before q n data rest hrest

end FileBook

namespace Extraction
variable {σ φ η : Type} [FileCreator φ η]

def book (w : Extraction (Logged φ) (η × Nat)) : FileBook :=
  ⟨w.creator.log, w.creator.files, w.opened.map fun f => f.handle.2⟩

variable {o : JobOptions} {filter : Selection.PathFilter} {j k : State (Logged φ) (η × Nat)}
  {r : Record}

theorem book_close (j : State (Logged φ) (η × Nat)) :
    (close j).1.work.book = j.work.book.closed ∧
      (close j).1.work.decoder = j.work.decoder := by
  obtain ⟨⟨creator, decoder, opened⟩, counts, pass⟩ := j
  cases opened <;> exact ⟨rfl, rfl⟩

theorem book_openFile (o : JobOptions) (filter : Selection.PathFilter)
    (j : State (Logged φ) (η × Nat)) (a : Attributes) :
    ((openFile o filter j a).work.book = j.work.book ∨
      (openFile o filter j a).work.book = j.work.book.opened a) ∧
      (openFile o filter j a).work.decoder = j.work.decoder := by
  simp only [openFile]
  split
  · exact ⟨.inl rfl, rfl⟩
  split
  · exact ⟨.inl rfl, rfl⟩
  split
  · exact ⟨.inl rfl, rfl⟩
  simp only [FileCreator.create, Logged.create]
  rcases FileCreator.create j.work.creator.creator a with ⟨creator, e | ⟨handle⟩ | _ | _⟩
  · exact ⟨.inl rfl, rfl⟩
  · exact ⟨.inr rfl, rfl⟩
  · exact ⟨.inl rfl, rfl⟩
  · exact ⟨.inl rfl, rfl⟩

theorem book_moveTo {f : OpenFile (η × Nat)} {address : Option Nat}
    {x : Except Failure (OpenFile (η × Nat))} (h : moveTo j f address = (k, x))
    (hf : j.work.opened = some f) :
    k.work.book = j.work.book ∧ k.work.decoder = j.work.decoder ∧
      ∀ g, x = .ok g → k.work.opened = some g ∧ g.handle.2 = f.handle.2 := by
  cases address with
  | none =>
    cases h
    exact ⟨rfl, rfl, fun g hg => by cases hg; exact ⟨hf, rfl⟩⟩
  | some address =>
    simp only [moveTo] at h
    split at h
    · cases h
      exact ⟨rfl, rfl, fun g hg => by cases hg; exact ⟨hf, rfl⟩⟩
    · simp only [FileCreator.seek] at h
      rcases hseek : FileCreator.seek j.work.creator.creator f.handle.1 address with ⟨c, e | handle⟩
      · rw [hseek] at h
        cases h
        exact ⟨rfl, rfl, fun g hg => by cases hg⟩
      · rw [hseek] at h
        cases h
        refine ⟨?_, rfl, fun g hg => by cases hg; exact ⟨rfl, rfl⟩⟩
        simp only [book, hf, Option.map_some]

theorem book_write (j : State (Logged φ) (η × Nat)) (address : Option Nat) (data : Bytes) :
    ((write j address data).1.work.book = j.work.book ∨ ∃ n, j.work.book.current = some n ∧
      (write j address data).1.work.book = j.work.book.wrote n data) ∧
      (write j address data).1.work.decoder = j.work.decoder := by
  simp only [write]
  split
  · exact ⟨.inl rfl, rfl⟩
  · next f hf =>
    split
    · next hmove =>
      obtain ⟨hbook, hdecoder, -⟩ := book_moveTo hmove hf
      exact ⟨.inl hbook, hdecoder⟩
    · next k g hmove =>
      obtain ⟨hbook, hdecoder, hopened⟩ := book_moveTo hmove hf
      obtain ⟨hg, hnumber⟩ := hopened g rfl
      have hcurrent : k.work.book.current = some g.handle.2 := by
        rw [book, hg, Option.map_some]
      have hbefore : j.work.book.current = some g.handle.2 := by rw [← hcurrent, hbook]
      refine ⟨.inr ⟨g.handle.2, hbefore, ?_⟩, ?_⟩
      · rw [← hbook, FileBook.wrote, hcurrent]
        simp only [FileCreator.write, Logged.write]
        rcases FileCreator.write k.work.creator.creator g.handle.1 data with ⟨c, e | handle⟩
        · simp only [Except.map, book, hg, Option.map_some]
        · rfl
      · rw [← hdecoder]
        simp only [FileCreator.write, Logged.write]
        rcases FileCreator.write k.work.creator.creator g.handle.1 data with ⟨c, e | handle⟩ <;> rfl

theorem change_perform (o : JobOptions) (filter : Selection.PathFilter) {d : Decoder}
    {action : Action} (hr : d.Decodes r action)
    (hj : r.tag.isAttributes = true → j.work.book.current = none) :
    (∃ event, FileBook.Change d r j.work.book (perform o filter j action).1.work.book event) ∧
      (perform o filter j action).1.work.decoder = j.work.decoder := by
  cases action with
  | attributes a =>
    obtain ⟨hbook | hbook, hdecoder⟩ := book_openFile o filter j a
    · refine ⟨⟨none, ?_⟩, hdecoder⟩
      rw [perform, hbook]
      exact .same hj
    · refine ⟨⟨some (.opened j.work.book.files a), ?_⟩, hdecoder⟩
      rw [perform, hbook]
      exact .opening hr
  | write address data =>
    obtain ⟨hbook | ⟨n, hcurrent, hbook⟩, hdecoder⟩ := book_write j address data
    · refine ⟨⟨none, ?_⟩, hdecoder⟩
      rw [perform, hbook]
      exact .same hj
    · refine ⟨⟨some (.wrote n data), ?_⟩, hdecoder⟩
      rw [perform, hbook]
      exact .writing hcurrent hr
  | nothing => exact ⟨⟨_, .same hj⟩, rfl⟩
  | fault f =>
    rw [perform]
    split
    · exact ⟨⟨_, .same hj⟩, rfl⟩
    · exact ⟨⟨_, .close⟩, rfl⟩

theorem change_decode (o : JobOptions) (filter : Selection.PathFilter)
    (hj : r.tag.isAttributes = true → j.work.book.current = none) :
    (∃ event, FileBook.Change j.work.decoder r j.work.book (decode o filter j r).1.work.book
      event) ∧
      j.work.decoder.Continues (decode o filter j r).1.work.decoder := by
  have hcontinues := j.work.decoder.continues_decode r
  rcases hdecode : j.work.decoder.decode r with ⟨d, e | action⟩
  · rw [hdecode] at hcontinues
    simp only [decode, hdecode]
    exact ⟨⟨_, .same hj⟩, hcontinues⟩
  · rw [hdecode] at hcontinues
    have hr : j.work.decoder.Decodes r action := ⟨j.work.decoder, .refl _, by rw [hdecode]⟩
    obtain ⟨hchange, hdecoder⟩ := change_perform o filter
      (j := { j with work := { j.work with decoder := d } }) hr hj
    simp only [decode, hdecode]
    refine ⟨hchange, ?_⟩
    rw [hdecoder]
    exact hcontinues

/-- Attribute records close the open file, data records fill it, and all others leave it alone or
close it. -/
theorem change_handle (o : JobOptions) (filter : Selection.PathFilter)
    (j : State (Logged φ) (η × Nat)) (r : Record) :
    (∃ event, FileBook.Change j.work.decoder r j.work.book (handle o filter j r).1.work.book
      event) ∧
      j.work.decoder.Continues (handle o filter j r).1.work.decoder := by
  obtain ⟨hbook, hdecoder⟩ := book_close j
  -- A record that closes the open file is decoded when none is open.
  unfold handle
  split
  · split
    · next hclose =>
      rw [hclose] at hbook hdecoder
      refine ⟨⟨none, ?_⟩, ?_⟩
      · rw [hbook]
        exact .close
      · rw [hdecoder]
        exact .refl _
    · next k hclose =>
      rw [hclose] at hbook hdecoder
      have hnone : k.work.book.current = none := by rw [hbook, FileBook.closed]
      obtain ⟨⟨event, hchange⟩, hcontinues⟩ := change_decode o filter (r := r) fun _ => hnone
      rw [hbook, hdecoder] at hchange
      rw [hdecoder] at hcontinues
      exact ⟨⟨event, hchange.of_closed⟩, hcontinues⟩
  · next hkind =>
    have hother : r.tag.isAttributes = false := by
      rw [Bool.not_eq_true, Bool.or_eq_false_iff] at hkind
      exact hkind.1
    split
    · exact ⟨⟨_, .keep hother⟩, .refl _⟩
    · exact change_decode o filter fun h => by cases hother.symm.trans h

theorem exists_accounts {decoder : Decoder} {creator : φ} {rs : List Record}
    {w : Extraction (Logged φ) (η × Nat)}
    (h : Job.Worked (handle o filter) { creator := { creator }, decoder } rs w) :
    decoder.Continues w.decoder ∧
      ∃ worked, worked.map Prod.fst = rs ∧ FileBook.Accounts decoder w.book worked := by
  induction h with
  | none => exact ⟨.refl _, [], rfl, FileBook.accounts_nil decoder⟩
  | @more rs r j k x _ hhandle ih =>
    obtain ⟨hcontinues, worked, hrecords, haccounts⟩ := ih
    obtain ⟨⟨event, hchange⟩, hafter⟩ := change_handle o filter j r
    rw [hhandle] at hchange hafter
    refine ⟨hcontinues.trans hafter, worked ++ [(r, event)], ?_,
      haccounts.step (hchange.of_continues hcontinues)⟩
    rw [List.map_append, hrecords]
    rfl

end Extraction
end BackupVolume
