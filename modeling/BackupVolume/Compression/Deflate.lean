import BackupVolume.Compression.Canonical

/-! # Deflate

The data are blocks: stored octets, or symbols in one of two codes, of which the first stands for
octets and for lengths, the second for distances. A length and a distance repeat earlier output.
Either the codes are fixed, or the block starts with the lengths of their words.
-/
namespace BackupVolume.Compression.Deflate

open CanonicalCode (Decoded)

inductive Stop where
  | invalid
  | endOfData
  | outputFull
  deriving DecidableEq

/-- The base of each length symbol and the number of extra bits, from symbol 257 on. -/
def lengths : Array (Nat × Nat) :=
  #[(3, 0), (4, 0), (5, 0), (6, 0), (7, 0), (8, 0), (9, 0), (10, 0), (11, 1), (13, 1), (15, 1),
    (17, 1), (19, 2), (23, 2), (27, 2), (31, 2), (35, 3), (43, 3), (51, 3), (59, 3), (67, 4),
    (83, 4), (99, 4), (115, 4), (131, 5), (163, 5), (195, 5), (227, 5), (258, 0)]

def distances : Array (Nat × Nat) :=
  #[(1, 0), (2, 0), (3, 0), (4, 0), (5, 1), (7, 1), (9, 2), (13, 2), (17, 3), (25, 3), (33, 4),
    (49, 4), (65, 5), (97, 5), (129, 6), (193, 6), (257, 7), (385, 7), (513, 8), (769, 8),
    (1025, 9), (1537, 9), (2049, 10), (3073, 10), (4097, 11), (6145, 11), (8193, 12), (12289, 12),
    (16385, 13), (24577, 13)]

/-- The order in which the lengths of the words for code lengths are stored. -/
def lengthOrder : List Nat := [16, 17, 18, 0, 8, 7, 9, 6, 10, 5, 11, 4, 12, 3, 13, 2, 14, 1, 15]

structure Codes where
  literals : CanonicalCode
  distances : CanonicalCode

def fixedCodes : Codes :=
  ⟨.ofLengths (List.replicate 144 8 ++ List.replicate 112 9 ++ List.replicate 24 7
      ++ List.replicate 8 8), .ofLengths (List.replicate 32 5)⟩

def symbolAt (c : CanonicalCode) (data : ByteArray) (next : Nat) : Except Stop (Nat × Nat) :=
  match c.decode data next with
  | .symbol value next => .ok (value, next)
  | .noWord => .error .invalid
  | .endOfData => .error .endOfData

def fieldAt (data : ByteArray) (next n : Nat) : Except Stop (Nat × Nat) :=
  match field? data next n with
  | some value => .ok (value, next + n)
  | none => .error .endOfData

def extended (base : Nat × Nat) (data : ByteArray) (next : Nat) : Except Stop (Nat × Nat) := do
  let (extra, next) ← fieldAt data next base.2
  return (base.1 + extra, next)

/-- Appends as much of a repetition as there is room for. -/
def repeated (out : ByteArray) (room distance length : Nat) : ByteArray × Bool :=
  let fitting := min length (room - out.size)
  (repeatBack out distance fitting, fitting == length)

/-- Decodes symbols up to the end of a block. The result is the output with the number of the bit
behind the block, or why decoding stops. The fuel is at least the number of bits. -/
def symbols (codes : Codes) (data : ByteArray) (room : Nat) :
    (fuel : Nat) → (next : Nat) → (out : ByteArray) → ByteArray × Except Stop Nat
  | 0, _, out => (out, .error .endOfData)
  | fuel + 1, next, out =>
    match symbolAt codes.literals data next with
    | .error e => (out, .error e)
    | .ok (symbol, next) =>
      if symbol < 256 then
        if out.size < room then symbols codes data room fuel next (out.push symbol.toUInt8)
        else (out, .error .outputFull)
      else if symbol = 256 then (out, .ok next)
      else
        let copy : Except Stop (Nat × Nat × Nat) := do
          let some base := lengths[symbol - 257]? | .error .invalid
          let (length, next) ← extended base data next
          let (symbol, next) ← symbolAt codes.distances data next
          let some base := distances[symbol]? | .error .invalid
          let (distance, next) ← extended base data next
          return (length, distance, next)
        match copy with
        | .error e => (out, .error e)
        | .ok (length, distance, next) =>
          if out.size < distance then (out, .error .invalid)
          else
            match repeated out room distance length with
            | (out, true) => symbols codes data room fuel next out
            | (out, false) => (out, .error .outputFull)

def stored (data : ByteArray) (room start : Nat) (out : ByteArray) :
    ByteArray × Except Stop Nat :=
  let i := (start + 7) / 8
  if data.size < i + 4 then (out, .error .endOfData)
  else if little data i 2 + little data (i + 2) 2 ≠ 0xFFFF then (out, .error .invalid)
  else
    let length := little data i 2
    let fitting := min (min length (data.size - (i + 4))) (room - out.size)
    let grown := appendSlice out data (i + 4) fitting
    if fitting = length then (grown, .ok (8 * (i + 4 + length)))
    else if grown.size < room then (grown, .error .endOfData)
    else (grown, .error .outputFull)

/-- The code lengths of a block, of which `count` are still to come; those read so far are given
last to first. -/
def readLengths (c : CanonicalCode) (data : ByteArray) :
    (fuel count next : Nat) → (seen : List Nat) → Except Stop (List Nat × Nat)
  | 0, _, _, _ => .error .endOfData
  | fuel + 1, count, next, seen =>
    if count = 0 then .ok (seen.reverse, next)
    else do
      let (symbol, next) ← symbolAt c data next
      if symbol < 16 then readLengths c data fuel (count - 1) next (symbol :: seen)
      else
        let (value, base) ← match symbol, seen with
          | 16, [] => .error .invalid
          | 16, last :: _ => .ok (last, (3, 2))
          | 17, _ => .ok (0, (3, 3))
          | _, _ => .ok (0, (11, 7))
        let (times, next) ← extended base data next
        if count < times then .error .invalid
        else readLengths c data fuel (count - times) next (List.replicate times value ++ seen)

/-- A code is usable when it is complete or has at most one word. -/
def usable (c : CanonicalCode) : Bool := c.isComplete || c.usedSymbols ≤ 1

def readCodes (data : ByteArray) (next : Nat) : Except Stop (Codes × Nat) := do
  let (literals, next) ← fieldAt data next 5
  let (distances, next) ← fieldAt data next 5
  let (stored, next) ← fieldAt data next 4
  let literals := literals + 257
  let distances := distances + 1
  if 286 < literals || 30 < distances then .error .invalid
  else
    let rec storedLengths : (n next : Nat) → Except Stop (List Nat × Nat)
      | 0, next => .ok ([], next)
      | n + 1, next => do
        let (length, next) ← fieldAt data next 3
        let (rest, next) ← storedLengths n next
        return (length :: rest, next)
    let (given, next) ← storedLengths (stored + 4) next
    let placed := lengthOrder.zip given
    let code := CanonicalCode.ofLengths ((List.range 19).map fun s => (placed.lookup s).getD 0)
    if !code.isComplete then .error .invalid
    else
      let total := literals + distances
      let (all, next) ← readLengths code data (total + 1) total next []
      let codes : Codes := ⟨.ofLengths (all.take literals), .ofLengths (all.drop literals)⟩
      if usable codes.literals && usable codes.distances then return (codes, next)
      else .error .invalid

/-- Decodes all blocks. The fuel is at least the number of bits. -/
def blocks (data : ByteArray) (room : Nat) :
    (fuel : Nat) → (next : Nat) → (out : ByteArray) → ByteArray × Except Stop Nat
  | 0, _, out => (out, .error .endOfData)
  | fuel + 1, next, out =>
    match fieldAt data next 3 with
    | .error e => (out, .error e)
    | .ok (header, next) =>
      let (out, result) := match header / 2 with
        | 0 => stored data room next out
        | 1 => symbols fixedCodes data room (8 * data.size + 1) next out
        | 2 => match readCodes data next with
          | .ok (codes, next) => symbols codes data room (8 * data.size + 1) next out
          | .error e => (out, .error e)
        | _ => (out, .error .invalid)
      match result with
      | .error e => (out, .error e)
      | .ok next => if header % 2 = 1 then (out, .ok next) else blocks data room fuel next out

def decode (data : ByteArray) (room start : Nat) : ByteArray × Except Stop Nat :=
  blocks data room (8 * data.size + 1) (8 * start) ByteArray.empty

def storedBlock (isLast : Bool) (bs : Bytes) : Bytes :=
  let n := bs.length
  (if isLast then 1 else 0) :: n.toUInt8 :: (n / 256).toUInt8
    :: (0xFFFF - n).toUInt8 :: ((0xFFFF - n) / 256).toUInt8 :: bs

def storedBlocks : List Bytes → Bytes
  | [] => storedBlock true []
  | [b] => storedBlock true b
  | b :: bs => storedBlock false b ++ storedBlocks bs

def encode (bs : Bytes) : Bytes := storedBlocks (Bytes.chunks 65535 bs)

end BackupVolume.Compression.Deflate
