import BackupVolume.Compression.Bits

/-! # Canonical codes

A canonical code is given by the lengths of its code words. Shorter words come before longer ones,
and words of one length follow the order of their symbols, so that a word is decoded bit by bit
with the number of words of each length. No word is longer than fifteen bits.
-/
namespace BackupVolume.Compression

structure CanonicalCode where
  counts : Array Nat
  symbols : Array Nat

namespace CanonicalCode

def maxLength : Nat := 15

def ofLengths (lengths : List Nat) : CanonicalCode :=
  let indexed := lengths.zipIdx
  let lengthsUsed := (List.range maxLength).map (· + 1)
  { counts := ((List.range (maxLength + 1)).map fun l =>
      if l = 0 then 0 else lengths.countP (· == l)).toArray
    symbols := (lengthsUsed.flatMap fun l =>
      (indexed.filter fun p => p.1 == l).map (·.2)).toArray }

def usedSymbols (c : CanonicalCode) : Nat := c.symbols.size

/-- Every sequence of bits starts with exactly one word. -/
def isComplete (c : CanonicalCode) : Bool :=
  (List.range (maxLength + 1)).foldl (fun total l =>
    total + (c.counts.getD l 0 <<< (maxLength - l))) 0 == 1 <<< maxLength

inductive Decoded where
  | symbol (value next : Nat)
  | noWord
  | endOfData

/-- Looks for a word of more than `length` bits. The first `length` bits have been read as `code`;
`first` is the first word of that length and `index` the number of shorter words. -/
def search (c : CanonicalCode) (data : ByteArray) (next : Nat) :
    (depth : Nat) → (length code first index : Nat) → Decoded
  | 0, _, _, _, _ => .noWord
  | depth + 1, length, code, first, index =>
    if next < 8 * data.size then
      let code := 2 * code + bitAt data next
      let first := 2 * first
      let count := c.counts.getD (length + 1) 0
      if code < first + count then .symbol (c.symbols.getD (index + (code - first)) 0) (next + 1)
      else c.search data (next + 1) depth (length + 1) code (first + count) (index + count)
    else .endOfData

def decode (c : CanonicalCode) (data : ByteArray) (start : Nat) : Decoded :=
  c.search data start maxLength 0 0 0 0

end CanonicalCode
end BackupVolume.Compression
