import BackupVolume.Checksum.XxHash64
import BackupVolume.Compression.Result
import BackupVolume.Compression.Zstandard.Block

/-! # Frames

Compressed data are frames one behind the other; some frames are skipped. A frame has a header,
blocks and perhaps a checksum. A frame that tells its size, fits the room and lies in one piece of
the input is decoded in place; any other goes through a buffer that holds its window, and the size
of that buffer bounds its blocks.
-/
namespace BackupVolume.Compression.Zstandard

structure FrameHeader where
  size : Nat
  content : Option Nat
  window : Nat
  dictionary : Nat
  isChecksummed : Bool

namespace FrameHeader

def magic : Nat := 0xFD2FB528
def skippedMagic : Nat := 0x184D2A50

def blockLimit (h : FrameHeader) : Nat := min h.window 131072

/-- The octets of some fields by the bits that announce them. -/
def dictionaryOctets (descriptor : Nat) : Nat := #[0, 1, 2, 4].getD (descriptor % 4) 0

def contentOctets (descriptor : Nat) : Nat :=
  match descriptor / 64 with
  | 0 => if descriptor / 32 % 2 = 1 then 1 else 0
  | 1 => 2
  | 2 => 4
  | _ => 8

def read (data : ByteArray) (i : Nat) : Result FrameHeader := do
  let descriptor := octetAt data (i + 4)
  let single := descriptor / 32 % 2 == 1
  let windowAt := i + 5
  let dictionaryAt := if single then windowAt else windowAt + 1
  let contentAt := dictionaryAt + dictionaryOctets descriptor
  let stop := contentAt + contentOctets descriptor
  require (i + 5 ≤ data.size && stop ≤ data.size) .incomplete
  require (descriptor / 8 % 2 == 0) .unsupportedParameter
  let windowByte := octetAt data windowAt
  let windowLog := windowByte / 8 + 10
  require (single || windowLog ≤ 31) .windowTooLarge
  let octets := contentOctets descriptor
  let stored := little data contentAt octets + if octets = 2 then 256 else 0
  let base := 1 <<< windowLog
  let window := if single then stored else base + base / 8 * (windowByte % 8)
  return { size := stop - i
           content := if octets = 0 then none else some stored
           window
           dictionary := little data dictionaryAt (dictionaryOctets descriptor)
           isChecksummed := descriptor / 4 % 2 == 1 }

end FrameHeader

/-- The header of a block: whether it is the last one, its type and its size. -/
structure BlockHeader where
  isLast : Bool
  kind : Nat
  size : Nat

namespace BlockHeader

def read (data : ByteArray) (i : Nat) : BlockHeader :=
  let word := little data i 3
  ⟨word % 2 == 1, word / 2 % 4, word / 8⟩

/-- The octets of the block behind its header; a block of one repeated octet stores it once. -/
def stored (h : BlockHeader) : Nat := if h.kind = 1 then 1 else h.size

end BlockHeader

/-- Where a frame ends, if its blocks are there in full. -/
def blocksEnd (data : ByteArray) (checksummed : Bool) : (fuel : Nat) → (i : Nat) → Option Nat
  | 0, _ => none
  | fuel + 1, i =>
    let h := BlockHeader.read data i
    let next := i + 3 + h.stored
    if data.size < i + 3 || data.size < next || h.kind = 3 then none
    else if !h.isLast then blocksEnd data checksummed fuel next
    else
      let stop := if checksummed then next + 4 else next
      if data.size < stop then none else some stop

/-- What decoding a frame goes through. `begin` is where the frame starts in the output, `segment`
and `floor` where the output in the buffer starts and how far back it is still known. -/
structure FrameState where
  next : Nat
  out : ByteArray
  memory : Memory := {}
  segment : Nat
  floor : Nat
  used : Nat := 0

structure Mode where
  header : FrameHeader
  origin : Nat
  /-- The frame is decoded in place, in room of this size; else through a buffer of this size. -/
  inPlace : Bool
  capacity : Nat

namespace Mode

def room (m : Mode) (s : FrameState) : Nat :=
  if m.inPlace then m.origin + m.capacity - s.out.size else m.capacity - s.used

/-- The buffer is used again from its start when another block might not fit. -/
def wraps (m : Mode) (used : Nat) : Bool :=
  match m.header.content with
  | some n => m.capacity < n && m.capacity < used + m.header.blockLimit
  | none => m.capacity < used + m.header.blockLimit

def grown (m : Mode) (s : FrameState) (out : ByteArray) (next : Nat) (memory : Memory) :
    FrameState :=
  let used := s.used + (out.size - s.out.size)
  if !m.inPlace && m.wraps used then
    { next, out, memory, segment := out.size, floor := s.segment, used := 0 }
  else { next, out, memory, segment := s.segment, floor := s.floor, used }

def sizeIsRight (m : Mode) (out : ByteArray) : Bool :=
  m.header.content.all (· == out.size - m.origin)

def block (m : Mode) (data : ByteArray) (h : BlockHeader) (s : FrameState) : Result FrameState := do
  let i := s.next + 3
  let room := m.room s
  let stop := i + h.stored
  match h.kind with
  | 0 =>
    require (h.size ≤ room) .blockTooLarge
    return m.grown s (appendSlice s.out data i h.size) stop s.memory
  | 1 =>
    require (h.size ≤ room) .blockTooLarge
    require (m.inPlace || h.size ≤ m.header.blockLimit) .corrupt
    return m.grown s (appendFill s.out (octetAt data i).toUInt8 h.size) stop s.memory
  | _ =>
    let bounds : BlockBounds := ⟨i, stop, m.header.blockLimit, room, s.floor⟩
    let (out, memory) ← decodeBlock data bounds s.memory s.out
    require (m.inPlace || out.size - s.out.size ≤ m.header.blockLimit) .corrupt
    return m.grown s out stop memory

def checksumIsRight (m : Mode) (data : ByteArray) (i : Nat) (out : ByteArray) : Bool :=
  let content := Bytes.ofArray (out.extract m.origin out.size)
  little data i 4 == (Checksum.XxHash64.hash 0 content).toNat % UInt32.size

def finish (m : Mode) (data : ByteArray) (s : FrameState) : Result FrameState := do
  if m.header.isChecksummed then
    require (s.next + 4 ≤ data.size) .incomplete
    require (m.checksumIsRight data s.next s.out) .checksumMismatch
    return { s with next := s.next + 4 }
  else return s

def cutOff (m : Mode) (data : ByteArray) (h : BlockHeader) (s : FrameState) :
    Result FrameState := do
  if h.kind = 0 then
    let i := s.next + 3
    let n := data.size - i
    require (n ≤ m.room s) .blockTooLarge
    return m.grown s (appendSlice s.out data i n) data.size s.memory
  else return s

end Mode

/-- How decoding ends: with all of the data, for want of room, or by an error. -/
inductive Ending where
  | complete (out : ByteArray)
  | outOfRoom
  | failed (e : FrameError)

/-- Output is asked for in a piece that fills the room, or in a piece of one octet where there is no
room. What can be handed over in that piece does not end decoding. -/
def reach (room : Nat) : Nat := max 1 room

/-- What has been decoded counts before what is wrong behind it: an error is told as long as the
output is within reach. That the data end is told only when the output fits. -/
def failing (room : Nat) (out : ByteArray) (e : FrameError) : Except Ending FrameState :=
  let limit := if e = .incomplete then room else reach room
  .error (if limit < out.size then .outOfRoom else .failed e)

def continuing (room : Nat) (before : ByteArray) (r : Result FrameState) :
    Except Ending FrameState :=
  match r with
  | .error e => failing room before e
  | .ok s => if reach room < s.out.size then .error .outOfRoom else .ok s

namespace Mode

def step (m : Mode) (data : ByteArray) (h : BlockHeader) (s : FrameState) : Result FrameState := do
  if h.stored = 0 && !m.inPlace then return { s with next := s.next + 3 }
  else
    let s ← m.block data h s
    require (!h.isLast || m.sizeIsRight s.out) .corrupt
    return s

end Mode

/-- Decodes blocks up to the last one. The fuel is more than the number of octets. -/
def decodeBlocks (data : ByteArray) (room : Nat) (m : Mode) :
    (fuel : Nat) → FrameState → Except Ending FrameState
  | 0, s => failing room s.out .incomplete
  | fuel + 1, s => do
    let h := BlockHeader.read data s.next
    if data.size < s.next + 3 then failing room s.out .incomplete
    else if h.kind = 3 || (!m.inPlace && m.header.blockLimit < h.stored) then
      failing room s.out .corrupt
    else if data.size < s.next + 3 + h.stored then
      let s ← continuing room s.out (m.cutOff data h s)
      failing room s.out .incomplete
    else
      let s ← continuing room s.out (m.step data h s)
      if h.isLast then continuing room s.out (m.finish data s)
      else decodeBlocks data room m fuel s

def pieceSize : Nat := 131075

def maxWindow : Nat := (1 <<< 27) + 1

/-- The size of the buffer for a window: the window, two blocks and a margin, but no more than the
content. -/
def bufferSize (h : FrameHeader) : Nat :=
  let window := max h.window 1024
  let needed := window + 2 * min (min window 131072) h.blockLimit + 64
  match h.content with
  | some n => min n needed
  | none => needed

/-- A frame can be decoded in place when it tells its size, there is room for it (or for one octet
when there is none), and it lies in the current piece of the input. -/
def fitsInPlace (data : ByteArray) (room i : Nat) (out : ByteArray) (h : FrameHeader) : Bool :=
  let free := max 1 (room - out.size)
  let piece := (i / pieceSize + 1) * pieceSize
  match h.content, blocksEnd data h.isChecksummed (data.size + 1) (i + h.size) with
  | some n, some stop => n ≤ free && stop ≤ piece
  | _, _ => false

def mode (data : ByteArray) (room i : Nat) (out : ByteArray) : Result Mode := do
  let h ← FrameHeader.read data i
  let inPlace := fitsInPlace data room i out h
  require (h.dictionary == 0) .needsDictionary
  require (inPlace || max h.window 1024 ≤ maxWindow) .windowTooLarge
  return ⟨h, out.size, inPlace, if inPlace then max 1 (room - out.size) else bufferSize h⟩

def startsLike (data : ByteArray) (i : Nat) : Bool :=
  let n := min 4 (data.size - i)
  let there := little data i n
  let skipped := if n = 0 then 0 else there - (if n = 0 then 0 else octetAt data i % 16)
  there == FrameHeader.magic % Bytes.bound n || skipped == FrameHeader.skippedMagic % Bytes.bound n

/-- The magic numbers of formats that are no longer read. -/
def oldMagics : List Nat := [0xFD2FB522, 0xFD2FB523, 0x1EB52FFD]

def decodeFrame (data : ByteArray) (room i : Nat) (out : ByteArray) : Except Ending FrameState :=
  let magic := little data i 4
  if !startsLike data i then
    failing room out
      (if i + 5 ≤ data.size && oldMagics.contains magic then .oldVersion else .unknownDescriptor)
  else if data.size < i + 5 then failing room out .incomplete
  else if magic ≠ FrameHeader.magic then
    let stop := i + 8 + little data (i + 4) 4
    if data.size < i + 8 || data.size < stop then failing room out .incomplete
    else .ok { next := stop, out, segment := 0, floor := 0 }
  else
    match mode data room i out with
    | .error e => failing room out e
    | .ok m => decodeBlocks data room m (data.size + 1)
        { next := i + m.header.size, out, segment := out.size, floor := out.size }

/-- Decodes frames up to the end of the data. The fuel is more than the number of octets. -/
def decodeFrames (data : ByteArray) (room : Nat) :
    (fuel : Nat) → (i : Nat) → (out : ByteArray) → Ending
  | 0, _, _ => .failed .incomplete
  | fuel + 1, i, out =>
    match decodeFrame data room i out with
    | .error e => e
    | .ok s =>
      if room < s.out.size then .outOfRoom
      else if s.next = data.size then .complete s.out
      else decodeFrames data room fuel s.next s.out

def decompress : Decompressor := fun bs room =>
  let data := bs.toByteArray
  match decodeFrames data room (data.size + 1) 0 ByteArray.empty with
  | .complete out => .ok (some (Bytes.ofArray out))
  | .outOfRoom => .ok none
  | .failed e => .error e.message

def storedHeader (isLast : Bool) (n : Nat) : Bytes :=
  (Bytes.ofNat 3 (8 * n + if isLast then 1 else 0)).reverse

def storedBlocks : List Bytes → Bytes
  | [] => storedHeader true 0
  | [b] => storedHeader true b.length ++ b
  | b :: bs => storedHeader false b.length ++ (b ++ storedBlocks bs)

/-- A frame that tells its size and holds the octets as they are. -/
def compress (bs : Bytes) : Bytes :=
  [0x28, 0xB5, 0x2F, 0xFD, 0xE0] ++ ((Bytes.ofNat 8 bs.length).reverse
    ++ storedBlocks (Bytes.chunks 131072 bs))

end BackupVolume.Compression.Zstandard
