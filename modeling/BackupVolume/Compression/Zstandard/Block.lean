import BackupVolume.Compression.Zstandard.Huffman

/-! # Compressed blocks

A compressed block holds literals and sequences. A sequence appends literals and repeats earlier
output; what remains of the literals ends the block. Codes and tables may be taken over from the
block before, and so may the last three distances.
-/
namespace BackupVolume.Compression.Zstandard

/-- What a block leaves to the next one of its frame. -/
structure Memory where
  literals : Option LiteralCode := none
  lengthTable : Option StateTable := none
  distanceTable : Option StateTable := none
  matchTable : Option StateTable := none
  distances : Nat × Nat × Nat := (1, 4, 8)

/-- The bounds of a block: its octets are `start` to `stop` of the data; no block of the frame has
more than `blockLimit` octets, there is room for `room` more octets of output, and repetitions
reach back to octet `floor` of the output. -/
structure BlockBounds where
  start : Nat
  stop : Nat
  blockLimit : Nat
  room : Nat
  floor : Nat

def plainLiteralsHeader (data : ByteArray) (i : Nat) : Nat × Nat :=
  match octetAt data i / 4 % 4 with
  | 1 => (little data i 2 / 16, 2)
  | 3 => (little data i 3 / 16, 3)
  | _ => (octetAt data i / 8, 1)

def codedLiteralsHeader (data : ByteArray) (i : Nat) : Nat × Nat × Nat :=
  match octetAt data i / 4 % 4 with
  | 2 => (field data (8 * i + 4) 14, field data (8 * i + 18) 14, 4)
  | 3 => (field data (8 * i + 4) 18, field data (8 * i + 22) 18, 5)
  | _ => (field data (8 * i + 4) 10, field data (8 * i + 14) 10, 3)

def checkLiterals (b : BlockBounds) (n : Nat) : Result Unit :=
  require (n ≤ b.blockLimit) .corrupt

def checkLiteralsRoom (b : BlockBounds) (n : Nat) : Result Unit :=
  require (n ≤ min b.blockLimit b.room) .blockTooLarge

def codedLiterals (data : ByteArray) (b : BlockBounds) (m : Memory) (stored : Bool) :
    Result (ByteArray × Nat × Memory) := do
  require (stored || m.literals.isSome) .missingTable
  require (b.start + 5 ≤ b.stop) .corrupt
  let (n, size, header) := codedLiteralsHeader data b.start
  let single := octetAt data b.start / 4 % 4 == 0
  checkLiterals b n
  require (single || 6 ≤ n) .badLiteralsHeader
  require (b.start + header + size ≤ b.stop) .corrupt
  checkLiteralsRoom b n
  let i := b.start + header
  let (code, used) ← match stored, m.literals with
    | false, some code => .ok (code, 0)
    | _, _ => LiteralCode.read data i size
  require (!stored || used < size) .corrupt
  let literals ←
    if single then code.stream data (i + used) (size - used) n ByteArray.empty
    else code.fourStreams data (i + used) (size - used) n
  return (literals, i + size, { m with literals := some code })

def readLiterals (data : ByteArray) (b : BlockBounds) (m : Memory) :
    Result (ByteArray × Nat × Memory) := do
  require (b.start + 2 ≤ b.stop) .corrupt
  let kind := octetAt data b.start % 4
  if 2 ≤ kind then codedLiterals data b m (kind == 2)
  else
    let (n, header) := plainLiteralsHeader data b.start
    let repeated := kind == 1
    let shortest := if repeated && header ≠ 1 then header + 1 else header
    require (b.start + shortest ≤ b.stop) .corrupt
    checkLiterals b n
    checkLiteralsRoom b n
    let i := b.start + header
    if repeated then
      return (appendFill ByteArray.empty (octetAt data i).toUInt8 n, i + 1, m)
    else
      require (i + n ≤ b.stop) .corrupt
      return (data.extract i (i + n), i + n, m)

/-- One of the three tables of sequences: the shares of its default, its greatest symbol and its
greatest size. -/
structure TableKind where
  default : Shares
  greatest : Nat
  maxLog : Nat

namespace TableKind

def literalLength : TableKind :=
  ⟨⟨6, [4, 3, 2, 2, 2, 2, 2, 2, 2, 2, 2, 2, 2, 1, 1, 1, 2, 2, 2, 2, 2, 2, 2, 2, 2, 3, 2, 1, 1, 1, 1,
    1, -1, -1, -1, -1]⟩, 35, 9⟩

def distance : TableKind :=
  ⟨⟨5, [1, 1, 1, 1, 1, 1, 2, 2, 2, 1, 1, 1, 1, 1, 1, 1, 1, 1, 1, 1, 1, 1, 1, 1, -1, -1, -1, -1,
    -1]⟩, 31, 8⟩

def matchLength : TableKind :=
  ⟨⟨6, [1, 4, 3, 2, 2, 2, 2, 2, 2, 1, 1, 1, 1, 1, 1, 1, 1, 1, 1, 1, 1, 1, 1, 1, 1, 1, 1, 1, 1, 1, 1,
    1, 1, 1, 1, 1, 1, 1, 1, 1, 1, 1, 1, 1, 1, 1, -1, -1, -1, -1, -1, -1, -1]⟩, 52, 9⟩

def read (k : TableKind) (data : ByteArray) (i stop mode : Nat) (earlier : Option StateTable) :
    Result (StateTable × Nat) :=
  match mode with
  | 0 => .ok (.ofShares k.default, i)
  | 1 => do
    require (i < stop) .corrupt
    require (octetAt data i ≤ k.greatest) .corrupt
    return (.constant (octetAt data i), i + 1)
  | 2 => do
    let (shares, size) ← Shares.read data i (stop - i) (k.greatest + 1)
    require (shares.log ≤ k.maxLog) .corrupt
    return (.ofShares shares, i + size)
  | _ => match earlier with
    | some t => .ok (t, i)
    | none => .error .corrupt

end TableKind

/-- The base of each symbol of a length and the number of extra bits. -/
def literalLengths : Array (Nat × Nat) :=
  ((List.range 16).map fun n => (n, 0)).toArray
    ++ #[(16, 1), (18, 1), (20, 1), (22, 1), (24, 2), (28, 2), (32, 3), (40, 3), (48, 4), (64, 6),
      (128, 7), (256, 8), (512, 9), (1024, 10), (2048, 11), (4096, 12), (8192, 13), (16384, 14),
      (32768, 15), (65536, 16)]

def matchLengths : Array (Nat × Nat) :=
  ((List.range 32).map fun n => (n + 3, 0)).toArray
    ++ #[(35, 1), (37, 1), (39, 1), (41, 1), (43, 2), (47, 2), (51, 3), (59, 3), (67, 4), (83, 4),
      (99, 5), (131, 7), (259, 8), (515, 9), (1027, 10), (2051, 11), (4099, 12), (8195, 13),
      (16387, 14), (32771, 15), (65539, 16)]

structure SequenceTables where
  lengths : StateTable
  distances : StateTable
  copies : StateTable

def readCount (data : ByteArray) (i stop : Nat) : Result (Nat × Nat) := do
  require (i < stop) .sourceSize
  let head := octetAt data i
  if head < 128 then return (head, i + 1)
  else if head < 255 then
    require (i + 2 ≤ stop) .sourceSize
    return ((head - 128) * 256 + octetAt data (i + 1), i + 2)
  else
    require (i + 3 ≤ stop) .sourceSize
    return (little data (i + 1) 2 + 0x7F00, i + 3)

def readTables (data : ByteArray) (i stop : Nat) (m : Memory) :
    Result (SequenceTables × Nat × Memory) := do
  require (i < stop) .sourceSize
  let modes := octetAt data i
  require (modes % 4 == 0) .corrupt
  let i := i + 1
  let (lengths, i) ← TableKind.literalLength.read data i stop (modes / 64) m.lengthTable
  let (distances, i) ← TableKind.distance.read data i stop (modes / 16 % 4) m.distanceTable
  let (copies, i) ← TableKind.matchLength.read data i stop (modes / 4 % 4) m.matchTable
  return (⟨lengths, distances, copies⟩, i,
    { m with
      lengthTable := some lengths
      distanceTable := some distances
      matchTable := some copies })

/-- The distance that a symbol with its extra bits means, and the last three distances after it.
The smallest symbols stand for one of the last distances, shifted by one after no literals. -/
def resolveDistance (symbol extra literals : Nat) (last : Nat × Nat × Nat) :
    Nat × (Nat × Nat × Nat) :=
  let (one, two, three) := last
  if 1 < symbol then
    let distance := (1 <<< symbol) - 3 + extra
    (distance, distance, one, two)
  else
    let choice := symbol + extra + if literals = 0 then 1 else 0
    match choice with
    | 0 => (one, last)
    | 1 => (two, two, one, three)
    | 2 => (three, three, one, two)
    | _ => (one - 1, one - 1, one, two)

structure SequenceRun where
  bits : BackwardBits
  length : Nat
  distance : Nat
  matching : Nat
  last : Nat × Nat × Nat
  literal : Nat
  out : ByteArray

def execute (b : BlockBounds) (limit : Nat) (literals : ByteArray) (r : SequenceRun)
    (count distance matching : Nat) : Result SequenceRun := do
  require (r.out.size + count + matching ≤ limit) .blockTooLarge
  require (r.literal + count ≤ literals.size) .corrupt
  require (distance ≠ 0 && b.floor + distance ≤ r.out.size + count) .corrupt
  let out := appendSlice r.out literals r.literal count
  return { r with literal := r.literal + count, out := repeatBack out distance matching }

def baseAndBits (table : Array (Nat × Nat)) (symbol : Nat) : Nat × Nat := table.getD symbol (0, 0)

/-- Runs `n` sequences. The states move on after each but the last. -/
def runSequences (b : BlockBounds) (limit : Nat) (literals : ByteArray) (t : SequenceTables) :
    (n : Nat) → SequenceRun → Result SequenceRun
  | 0, r => .ok r
  | n + 1, r => do
    let symbol := t.distances.symbol r.distance
    let (lengthBase, lengthBits) := baseAndBits literalLengths (t.lengths.symbol r.length)
    let (matchBase, matchBits) := baseAndBits matchLengths (t.copies.symbol r.matching)
    let (extra, bits) := r.bits.read symbol
    let (distance, last) := resolveDistance symbol extra lengthBase r.last
    let (matchExtra, bits) := bits.read matchBits
    let (lengthExtra, bits) := bits.read lengthBits
    let r ← execute b limit literals { r with bits, last } (lengthBase + lengthExtra) distance
      (matchBase + matchExtra)
    if n = 0 then return r
    else
      let (length, bits) := t.lengths.next r.length r.bits
      let (matching, bits) := t.copies.next r.matching bits
      let (distance, bits) := t.distances.next r.distance bits
      runSequences b limit literals t n { r with bits, length, matching, distance }

def decodeBlock (data : ByteArray) (b : BlockBounds) (m : Memory) (out : ByteArray) :
    Result (ByteArray × Memory) := do
  require (b.stop - b.start ≤ b.blockLimit) .sourceSize
  let limit := out.size + b.room
  let (literals, i, m) ← readLiterals data b m
  let (count, i) ← readCount data i b.stop
  if count = 0 then
    require (i == b.stop) .corrupt
    require (out.size + literals.size ≤ limit) .blockTooLarge
    return (out ++ literals, m)
  else
    let (t, i, m) ← readTables data i b.stop m
    require (b.room ≠ 0) .blockTooLarge
    let bits ← BackwardBits.ofSection data i (b.stop - i)
    let (length, bits) := t.lengths.first bits
    let (distance, bits) := t.distances.first bits
    let (matching, bits) := t.copies.first bits
    let r ← runSequences b limit literals t count
      ⟨bits, length, distance, matching, m.distances, 0, out⟩
    require r.bits.isAtEnd .corrupt
    let rest := literals.size - r.literal
    require (r.out.size + rest ≤ limit) .blockTooLarge
    return (appendSlice r.out literals r.literal rest, { m with distances := r.last })

end BackupVolume.Compression.Zstandard
