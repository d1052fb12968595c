import BackupVolume.Compression.Zstandard.Basic

/-! # State tables

Symbols are decoded by a walk through states. A state stands for a symbol and tells how many bits
lead to the next state. A table is made from a share of the states for each symbol, and is stored
as these shares; a share of minus one is less than one state and gets a state of its own at the
end of the table.
-/
namespace BackupVolume.Compression.Zstandard

/-- The shares of the symbols among `2 ^ log` states. -/
structure Shares where
  log : Nat
  values : List Int

/-- What reading shares keeps between symbols: the bits read, the states left to give away plus
one, and the shares so far, last to first. -/
structure ShareReader where
  next : Nat
  remaining : Int
  seen : List Int

namespace ShareReader

/-- Reads the share of the next symbol. The number of bits depends on how much is left. -/
def readShare (r : ShareReader) (data : ByteArray) : ShareReader :=
  let bits := r.remaining.toNat.log2 + 1
  let threshold := 1 <<< (bits - 1)
  let short : Int := (2 * threshold - 1) - r.remaining
  let low := field data r.next (bits - 1)
  let (value, used) : Int × Nat :=
    if low < short then (low, bits - 1)
    else
      let value : Nat := field data r.next bits
      (if threshold ≤ value then value - short else value, bits)
  let share := value - 1
  ⟨r.next + used, r.remaining - share.natAbs, share :: r.seen⟩

/-- Reads how many symbols without a share follow: two bits each time, as long as they are three. -/
def readZeros (data : ByteArray) : (fuel : Nat) → ShareReader → ShareReader
  | 0, r => r
  | fuel + 1, r =>
    let n := field data r.next 2
    let r := { r with next := r.next + 2, seen := List.replicate n 0 ++ r.seen }
    if n = 3 then readZeros data fuel r else r

def readAll (data : ByteArray) (limit : Nat) : (fuel : Nat) → ShareReader → ShareReader
  | 0, r => r
  | fuel + 1, r =>
    let r := r.readShare data
    if r.remaining ≤ 1 || limit ≤ r.seen.length then r
    else
      let r := if r.seen.head? == some 0 then readZeros data (8 * data.size + 1) r else r
      if limit ≤ r.seen.length then r else readAll data limit fuel r

end ShareReader

def Shares.read (data : ByteArray) (i n limit : Nat) : Result (Shares × Nat) := do
  let part := data.extract i (i + n)
  let log := field part 0 4 + 5
  require (log ≤ 15) .corrupt
  let r := ShareReader.readAll part limit (limit + 1) ⟨4, ((1 <<< log) + 1 : Nat), []⟩
  require (r.remaining == 1) .corrupt
  require (r.seen.length ≤ limit) .corrupt
  let size := (r.next + 7) / 8
  require (size ≤ n) .corrupt
  return (⟨log, r.seen.reverse⟩, size)

structure StateEntry where
  symbol : Nat
  bits : Nat
  base : Nat

structure StateTable where
  log : Nat
  entries : Array StateEntry

namespace StateTable

def constant (symbol : Nat) : StateTable := ⟨0, #[⟨symbol, 0, 0⟩]⟩

/-- The position after `p` in which the states of symbols are laid out. Positions from `low` on
belong to the smallest shares and are passed over. -/
def advance (size low : Nat) : (fuel : Nat) → (p : Nat) → Nat
  | 0, p => p
  | fuel + 1, p =>
    let p := (p + size / 2 + size / 8 + 3) % size
    if low ≤ p then advance size low fuel p else p

def place (size low symbol : Nat) : (n : Nat) → Array Nat × Nat → Array Nat × Nat
  | 0, t => t
  | n + 1, (cells, p) =>
    place size low symbol n (cells.setIfInBounds p symbol, advance size low size p)

/-- Numbers the states of each symbol in order, starting from its share; the number of a state
tells how many bits lead on and from where. -/
def number (log : Nat) : List Nat → Array Nat → List StateEntry
  | [], _ => []
  | symbol :: rest, counters =>
    let state := counters.getD symbol 0
    let bits := log - state.log2
    ⟨symbol, bits, (state <<< bits) - (1 <<< log)⟩
      :: number log rest (counters.setIfInBounds symbol (state + 1))

def ofShares (s : Shares) : StateTable :=
  let size := 1 <<< s.log
  let indexed := s.values.zipIdx
  let small := (indexed.filter fun p => p.1 == -1).map (·.2)
  let low := size - small.length
  let cells := small.zipIdx.foldl (fun cells p => cells.setIfInBounds (size - 1 - p.2) p.1)
    (Array.replicate size 0)
  let (cells, _) := indexed.foldl (fun t p => place size low p.2 p.1.toNat t) (cells, 0)
  let counters := (s.values.map fun v => if v == -1 then 1 else v.toNat).toArray
  ⟨s.log, (number s.log cells.toList counters).toArray⟩

def entry (t : StateTable) (state : Nat) : StateEntry := t.entries.getD state ⟨0, 0, 0⟩

def symbol (t : StateTable) (state : Nat) : Nat := (t.entry state).symbol

def first (t : StateTable) (b : BackwardBits) : Nat × BackwardBits := b.read t.log

def next (t : StateTable) (state : Nat) (b : BackwardBits) : Nat × BackwardBits :=
  let e := t.entry state
  let (low, b) := b.read e.bits
  (e.base + low, b)

end StateTable
end BackupVolume.Compression.Zstandard
