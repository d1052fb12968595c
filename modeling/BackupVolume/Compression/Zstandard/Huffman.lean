import BackupVolume.Compression.Zstandard.StateTable

/-! # Codes of literals

Literals are coded in words whose lengths follow from weights: a symbol of weight `w` gets the
share `2 ^ (w - 1)` of all words of the greatest length, and one of weight zero gets none. The
weights are stored as half octets or through a state table; the weight of the last symbol is the
one that makes the code complete.
-/
namespace BackupVolume.Compression.Zstandard

structure LiteralEntry where
  symbol : UInt8
  length : Nat

/-- For every sequence of `log` bits the symbol whose word it starts with. -/
structure LiteralCode where
  log : Nat
  entries : Array LiteralEntry

namespace LiteralCode

def maxLog : Nat := 12

/-- Decodes weights by two states that take turns, until the bits are used up. The weights so far
are given last to first. -/
def walk (t : StateTable) : (fuel : Nat) → (one two : Nat) → BackwardBits → List Nat →
    Result (List Nat)
  | 0, _, _, _, _ => .error .corrupt
  | fuel + 1, one, two, b, seen =>
    if 253 < seen.length then .error .corrupt
    else
      let seen := t.symbol one :: seen
      let (one, b) := t.next one b
      if b.isOverrun then .ok (t.symbol two :: seen).reverse
      else walk t fuel two one b seen

def codedWeights (data : ByteArray) (i n : Nat) : Result (List Nat) := do
  let (shares, size) ← Shares.read data i n 256
  require (shares.log ≤ 6) .corrupt
  let t := StateTable.ofShares shares
  let b ← BackwardBits.ofSection data (i + size) (n - size)
  let (one, b) := t.first b
  let (two, b) := t.first b
  require (!b.isOverrun) .corrupt
  walk t 256 one two b []

/-- Weights stored as half octets, the first one in the high half. -/
def plainWeights (data : ByteArray) (i count : Nat) : List Nat :=
  (List.range count).map fun k =>
    let octet := octetAt data (i + k / 2)
    if k % 2 = 0 then octet / 16 else octet % 16

def readWeights (data : ByteArray) (i n : Nat) : Result (List Nat × Nat) := do
  require (0 < n) .corrupt
  let head := octetAt data i
  if 128 ≤ head then
    let count := head - 127
    let size := (count + 1) / 2
    require (size + 1 ≤ n) .corrupt
    return (plainWeights data (i + 1) count, size + 1)
  else
    require (head + 1 ≤ n) .corrupt
    let weights ← codedWeights data (i + 1) head
    return (weights, head + 1)

def share (w : Nat) : Nat := (1 <<< w) / 2

/-- All weights, with the last one that makes the shares a power of two, and the exponent. -/
def completeWeights (weights : List Nat) : Result (List Nat × Nat) := do
  require (weights.all (· ≤ maxLog)) .corrupt
  let total := weights.foldl (fun total w => total + share w) 0
  require (0 < total) .corrupt
  let log := total.log2 + 1
  require (log ≤ maxLog) .corrupt
  let rest := (1 <<< log) - total
  require ((1 <<< rest.log2) == rest) .corrupt
  let all := weights ++ [rest.log2 + 1]
  let ones := all.countP (· == 1)
  require (2 ≤ ones && ones % 2 == 0) .corrupt
  return (all, log)

def ofWeights (weights : List Nat) (log : Nat) : LiteralCode :=
  let indexed := weights.zipIdx
  let entries := (List.range log).flatMap fun k =>
    (indexed.filter fun p => p.1 == k + 1).flatMap fun p =>
      List.replicate (1 <<< k) ⟨p.2.toUInt8, log - k⟩
  ⟨log, entries.toArray⟩

def read (data : ByteArray) (i n : Nat) : Result (LiteralCode × Nat) := do
  let (weights, size) ← readWeights data i n
  let (weights, log) ← completeWeights weights
  return (ofWeights weights log, size)

def symbols (c : LiteralCode) : (n : Nat) → BackwardBits → ByteArray → ByteArray × BackwardBits
  | 0, b, out => (out, b)
  | n + 1, b, out =>
    let e := c.entries.getD (b.peek c.log) ⟨0, 0⟩
    symbols c n (b.skip e.length) (out.push e.symbol)

/-- Decodes a stream of `n` symbols in a section of `size` octets, which it must use up. -/
def stream (c : LiteralCode) (data : ByteArray) (i size n : Nat) (out : ByteArray) :
    Result ByteArray := do
  let b ← BackwardBits.ofSection data i size
  let (out, b) := c.symbols n b out
  require b.isAtEnd .corrupt
  return out

/-- Decodes four streams that share `n` symbols. Their sizes but the last are in front. -/
def fourStreams (c : LiteralCode) (data : ByteArray) (i size n : Nat) : Result ByteArray := do
  require (10 ≤ size) .corrupt
  let one := little data i 2
  let two := little data (i + 2) 2
  let three := little data (i + 4) 2
  require (6 + one + two + three ≤ size) .corrupt
  let four := size - (6 + one + two + three)
  let each := (n + 3) / 4
  require (3 * each ≤ n) .corrupt
  let i := i + 6
  let out ← c.stream data i one each ByteArray.empty
  let out ← c.stream data (i + one) two each out
  let out ← c.stream data (i + one + two) three each out
  c.stream data (i + one + two + three) four (n - 3 * each) out

end LiteralCode
end BackupVolume.Compression.Zstandard
