import BackupVolume.Proofs.Job.Ending
import BackupVolume.Proofs.Restore.Logging

/-! # The calls that files receive

A creator may keep a list of all calls that its files receive, by their numbers: the files it opens,
where they are moved to, what is written into them, and with which attributes they are finished.
The list, the number of files and the file that is open make up a ledger, and every step of an
extraction is one of four entries in it.
-/
namespace BackupVolume

inductive FileCall where
  | opened (file : Nat) (a : Attributes)
  | sought (file : Nat) (address : Nat)
  | wrote (file : Nat) (data : Bytes)
  | finished (file : Nat) (a : Attributes)
  deriving DecidableEq

def FileCall.file : FileCall → Nat
  | opened n _ | sought n _ | wrote n _ | finished n _ => n

structure Called (φ : Type) where
  creator : φ
  calls : List FileCall := []
  files : Nat := 0

namespace Called
variable {φ η : Type} [FileCreator φ η]

def create (c : Called φ) (a : Attributes) : Called φ × Except IoFault (Disposition (η × Nat)) :=
  match FileCreator.create c.creator a with
  | (creator, .error e) => ({ c with creator }, .error e)
  | (creator, .ok (.file handle)) =>
    (⟨creator, c.calls ++ [.opened c.files a], c.files + 1⟩, .ok (.file (handle, c.files)))
  | (creator, .ok .created) => ({ c with creator }, .ok .created)
  | (creator, .ok .skipped) => ({ c with creator }, .ok .skipped)

instance : FileCreator (Called φ) (η × Nat) where
  create := create
  path c f := FileCreator.path c.creator f.1
  seek c f address :=
    let (creator, x) := FileCreator.seek c.creator f.1 address
    ({ c with creator, calls := c.calls ++ [.sought f.2 address] }, x.map (·, f.2))
  write c f data :=
    let (creator, x) := FileCreator.write c.creator f.1 data
    ({ c with creator, calls := c.calls ++ [.wrote f.2 data] }, x.map (·, f.2))
  finish c f a :=
    let (creator, x) := FileCreator.finish c.creator f.1 a
    ({ c with creator, calls := c.calls ++ [.finished f.2 a] }, x)

def uncalled : FileCreator.Hom (Called φ) φ where
  state := creator
  handle := Prod.fst
  create c a := by
    simp only [FileCreator.create, create]
    rcases FileCreator.create c.creator a with ⟨x, e | ⟨handle⟩ | _ | _⟩ <;> rfl
  path _ _ := rfl
  seek c f address := by
    simp only [FileCreator.seek]
    rcases FileCreator.seek c.creator f.1 address with ⟨x, e | handle⟩ <;> rfl
  write c f data := by
    simp only [FileCreator.write]
    rcases FileCreator.write c.creator f.1 data with ⟨x, e | handle⟩ <;> rfl
  finish _ _ _ := rfl

end Called

/-- Files can always be moved, written and finished. -/
structure FileCreator.Obliging (φ : Type) {η : Type} [FileCreator φ η] : Prop where
  seek (c : φ) (h : η) (address : Nat) : ∃ d g, FileCreator.seek c h address = (d, .ok g)
  write (c : φ) (h : η) (data : Bytes) : ∃ d g, FileCreator.write c h data = (d, .ok g)
  finish (c : φ) (h : η) (a : Attributes) : ∃ d, FileCreator.finish c h a = (d, .ok ())

def moving (n : Nat) (address : UInt64) : Option Nat → List FileCall
  | none => []
  | some target => if target = address.toNat then [] else [.sought n target]

def transfer (n : Nat) (address : UInt64) (x : Option Nat × Bytes) : List FileCall :=
  moving n address x.1 ++ [.wrote n x.2]

/-- The address at which data are written into a file that has got to one. -/
def destination (address : UInt64) (target : Option Nat) : UInt64 :=
  (target.map Nat.toUInt64).getD address

def addressBehind (address : UInt64) (x : Option Nat × Bytes) : UInt64 :=
  destination address x.1 + x.2.length.toUInt64

def transfers (n : Nat) : (address : UInt64) → List (Option Nat × Bytes) → List FileCall
  | _, [] => []
  | address, x :: xs => transfer n address x ++ transfers n (addressBehind address x) xs

theorem transfers_append (n : Nat) (address : UInt64) (xs ys : List (Option Nat × Bytes)) :
    transfers n address (xs ++ ys)
      = transfers n address xs ++ transfers n (xs.foldl addressBehind address) ys := by
  induction xs generalizing address with
  | nil => rfl
  | cons x xs ih => simp only [List.cons_append, transfers, ih, List.append_assoc, List.foldl_cons]

theorem file_of_mem_moving {n : Nat} {address : UInt64} {target : Option Nat} {c : FileCall}
    (h : c ∈ moving n address target) : c.file = n := by
  unfold moving at h
  repeat' split at h
  · cases h
  · cases h
  · obtain rfl := List.mem_singleton.mp h
    rfl

theorem file_of_mem_transfers {n : Nat} {address : UInt64} {xs : List (Option Nat × Bytes)}
    {c : FileCall} (h : c ∈ transfers n address xs) : c.file = n := by
  induction xs generalizing address with
  | nil => cases h
  | cons x xs ih =>
    rw [transfers, transfer, List.append_assoc] at h
    rcases List.mem_append.mp h with h | h
    · exact file_of_mem_moving h
    · rcases List.mem_cons.mp h with rfl | h
      · rfl
      · exact ih h

structure FileLedger where
  calls : List FileCall := []
  files : Nat := 0
  current : Option (OpenFile Nat) := none

namespace FileLedger

def closing (b : FileLedger) : List FileCall :=
  match b.current with
  | none => []
  | some f => [.finished f.handle f.attributes]

def closed (b : FileLedger) : FileLedger :=
  { b with calls := b.calls ++ b.closing, current := none }

def opened (b : FileLedger) (a : Attributes) : FileLedger :=
  ⟨b.calls ++ [.opened b.files a], b.files + 1, some { handle := b.files, attributes := a }⟩

def abandoned (b : FileLedger) : FileLedger := { b with current := none }

def filling (b : FileLedger) (xs : List (Option Nat × Bytes)) : List FileCall :=
  match b.current with
  | none => []
  | some f => transfers f.handle f.address xs

def filled (b : FileLedger) (xs : List (Option Nat × Bytes)) : FileLedger :=
  { b with
    calls := b.calls ++ b.filling xs
    current := b.current.map fun f => { f with address := xs.foldl addressBehind f.address } }

theorem closed_of_none {b : FileLedger} (h : b.current = none) : b.closed = b := by
  obtain ⟨calls, files, current⟩ := b
  obtain rfl : current = none := h
  exact congrArg (FileLedger.mk · files none) (List.append_nil calls)

theorem filled_of_none {b : FileLedger} (h : b.current = none)
    (xs : List (Option Nat × Bytes)) : b.filled xs = b := by
  obtain ⟨calls, files, current⟩ := b
  obtain rfl : current = none := h
  exact congrArg (FileLedger.mk · files none) (List.append_nil calls)

theorem filling_nil (b : FileLedger) : b.filling [] = [] := by
  rw [filling]
  split <;> rfl

theorem filled_nil (b : FileLedger) : b.filled [] = b := by
  obtain ⟨calls, files, current⟩ := b
  rw [filled, filling_nil, List.append_nil]
  cases current <;> rfl

end FileLedger

namespace Extraction
variable {φ η : Type} [FileCreator φ η]

def ledger (w : Extraction (Called φ) (η × Nat)) : FileLedger :=
  ⟨w.creator.calls, w.creator.files, w.opened.map fun f => { f with handle := f.handle.2 }⟩

variable {j k : State (Called φ) (η × Nat)}

theorem ledger_close (ho : FileCreator.Obliging φ) (j : State (Called φ) (η × Nat)) :
    ∃ k, close j = (k, .ok ()) ∧ k.work.ledger = j.work.ledger.closed ∧
      k.work.decoder = j.work.decoder ∧ k.counts = j.counts := by
  obtain ⟨⟨creator, decoder, opened⟩, counts, pass⟩ := j
  cases opened with
  | none => exact ⟨_, rfl, (FileLedger.closed_of_none rfl).symm, rfl, rfl⟩
  | some f =>
    obtain ⟨d, hfinish⟩ := ho.finish creator.creator f.handle.1 f.attributes
    simp only [close, FileCreator.finish, hfinish]
    exact ⟨_, rfl, rfl, rfl, rfl⟩

/-- Attributes open at most one file. -/
theorem ledger_openFile (o : JobOptions) (filter : Selection.PathFilter)
    (j : State (Called φ) (η × Nat)) (a : Attributes) :
    ((openFile o filter j a).work.ledger = j.work.ledger ∨
      (openFile o filter j a).work.ledger = j.work.ledger.opened a) ∧
      (openFile o filter j a).work.decoder = j.work.decoder ∧
      (openFile o filter j a).counts.records = j.counts.records := by
  simp only [openFile]
  split
  · exact ⟨.inl rfl, rfl, rfl⟩
  split
  · exact ⟨.inl rfl, rfl, rfl⟩
  split
  · exact ⟨.inl rfl, rfl, rfl⟩
  simp only [FileCreator.create, Called.create]
  rcases FileCreator.create j.work.creator.creator a with ⟨creator, e | ⟨handle⟩ | _ | _⟩
  · exact ⟨.inl rfl, rfl, rfl⟩
  · exact ⟨.inr rfl, rfl, rfl⟩
  · exact ⟨.inl rfl, rfl, rfl⟩
  · exact ⟨.inl rfl, rfl, rfl⟩

theorem ledger_moveTo (ho : FileCreator.Obliging φ) {f : OpenFile (η × Nat)}
    (hf : j.work.opened = some f) (address : Option Nat) :
    ∃ k g, moveTo j f address = (k, .ok g) ∧ k.work.opened = some g ∧
      k.work.ledger = ⟨j.work.creator.calls ++ moving f.handle.2 f.address address,
        j.work.creator.files, some ⟨f.handle.2, f.attributes, destination f.address address⟩⟩ ∧
      k.work.decoder = j.work.decoder ∧ k.counts.records = j.counts.records := by
  obtain ⟨⟨creator, decoder, opened⟩, counts, pass⟩ := j
  obtain rfl : opened = some f := hf
  cases address with
  | none =>
    refine ⟨_, f, rfl, rfl, ?_, rfl, rfl⟩
    rw [moving, List.append_nil]
    rfl
  | some address =>
    by_cases hstays : address = f.address.toNat
    · have hsame : destination f.address (some address) = f.address := by
        rw [destination, Option.map_some, Option.getD_some, hstays]
        exact UInt64.ofNat_toNat
      refine ⟨_, f, if_pos hstays, rfl, ?_, rfl, rfl⟩
      rw [moving, if_pos hstays, List.append_nil, hsame]
      rfl
    · obtain ⟨d, g, hseek⟩ := ho.seek creator.creator f.handle.1 address
      simp only [moveTo, if_neg hstays, FileCreator.seek, hseek, moving]
      exact ⟨_, _, rfl, rfl, rfl, rfl, rfl⟩

/-- Data make the open file be moved to their address and written. -/
theorem ledger_write (ho : FileCreator.Obliging φ) (j : State (Called φ) (η × Nat))
    (address : Option Nat) (data : Bytes) :
    ∃ k, write j address data = (k, .ok ()) ∧
      k.work.ledger = j.work.ledger.filled [(address, data)] ∧
      k.work.decoder = j.work.decoder ∧ k.counts.records = j.counts.records := by
  cases hopened : j.work.opened with
  | none =>
    have hnone : j.work.ledger.current = none := by rw [ledger, hopened, Option.map_none]
    rw [FileLedger.filled_of_none hnone]
    simp only [write, hopened]
    exact ⟨_, rfl, rfl, rfl, rfl⟩
  | some f =>
    obtain ⟨k, g, hmove, hg, hledger, hdecoder, hrecords⟩ := ledger_moveTo ho (j := { j with
      counts := { j.counts with bytes := j.counts.bytes + data.length } }) hopened address
    obtain ⟨d, h, hwrite⟩ := ho.write k.work.creator.creator g.handle.1 data
    simp only [write, hopened, hmove, FileCreator.write, hwrite]
    refine ⟨_, rfl, ?_, hdecoder, hrecords⟩
    simp only [ledger, hg, Option.map_some, FileLedger.mk.injEq, Option.some.injEq,
      OpenFile.mk.injEq] at hledger
    obtain ⟨hcalls, hfiles, hhandle, hattributes, haddress⟩ := hledger
    simp only [ledger, FileLedger.filled, FileLedger.filling, hopened, Option.map_some, transfers,
      transfer, List.foldl_cons, List.foldl_nil, addressBehind, hcalls, hfiles, hhandle,
      hattributes, haddress, List.append_assoc, List.append_nil]

end Extraction
end BackupVolume
