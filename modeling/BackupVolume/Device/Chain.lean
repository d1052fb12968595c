import BackupVolume.Device.Source

/-! # Chains of volumes

Several sources are read one after another. At the end of its data a volume is released and the
next one is turned to; releasing the chain releases those that are left.
-/
namespace BackupVolume

/-- The volumes that have been read, last one first, and those from the current one on. -/
structure Chain (α : Type) where
  passed : List α := []
  rest : List α

namespace Chain
variable {α : Type} [BlockSource α]

def ofList (volumes : List α) : Chain α := ⟨[], volumes⟩

def current? (c : Chain α) : Option α := c.rest.head? <|> c.passed.head?

def name (c : Chain α) : String := c.current?.elim "<no volume>" BlockSource.name

/-- Reads the first of the volumes `rest` that has a block left. -/
def readFrom (passed : List α) :
    (rest : List α) → Chain α × Except IoFault (Option RawBlock)
  | [] => (⟨passed, []⟩, .ok none)
  | v :: rest =>
    match BlockSource.read v with
    | (v, .error e) => (⟨passed, v :: rest⟩, .error e)
    | (v, .ok (some b)) => (⟨passed, v :: rest⟩, .ok (some b))
    | (v, .ok none) =>
      match BlockSource.release v with
      | (v, .error e) => (⟨passed, v :: rest⟩, .error e)
      | (v, .ok ()) => readFrom (v :: passed) rest

def read (c : Chain α) : Chain α × Except IoFault (Option RawBlock) := readFrom c.passed c.rest

/-- Releases volumes in order, up to the first one that refuses. -/
def releaseAll : List α → List α × Except IoFault Unit
  | [] => ([], .ok ())
  | v :: rest =>
    match BlockSource.release v with
    | (v, .error e) => (v :: rest, .error e)
    | (v, .ok ()) =>
      let (rest, r) := releaseAll rest
      (v :: rest, r)

def release (c : Chain α) : Chain α × Except IoFault Unit :=
  let (rest, r) := releaseAll c.rest
  (⟨c.passed, rest⟩, r)

def remainingIn (volumes : List α) : Nat :=
  volumes.foldr (fun v n => BlockSource.remaining v + n) 0

def remaining (c : Chain α) : Nat := remainingIn c.rest

theorem remaining_readFrom {passed rest : List α} {c : Chain α} {b : RawBlock}
    (h : readFrom passed rest = (c, .ok (some b))) :
    c.remaining < remainingIn rest := by
  induction rest generalizing passed with
  | nil => simp [readFrom] at h
  | cons v rest ih =>
    rw [readFrom] at h
    split at h
    · simp at h
    · next found =>
      have := BlockSource.remaining_read found
      simp only [Prod.mk.injEq] at h
      rw [← h.1]
      simp only [remaining, remainingIn, List.foldr_cons]
      omega
    · split at h
      · simp at h
      · have := ih h
        simp only [remainingIn, List.foldr_cons] at this ⊢
        omega

instance : BlockSource (Chain α) where
  name := name
  read := read
  release := release
  remaining := remaining
  remaining_read := remaining_readFrom

end Chain
end BackupVolume
