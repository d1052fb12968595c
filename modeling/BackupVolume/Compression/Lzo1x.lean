import BackupVolume.Compression.Bits
import BackupVolume.Compression.Result

/-! # LZO1X

Instructions alternate between runs of literal octets and repetitions of earlier output. A
repetition is followed by up to three literals, whose number is part of the instruction; what a
small instruction means depends on whether a run, a repetition or short literals went before.
The last instruction repeats at distance zero.
-/
namespace BackupVolume.Compression.Lzo1x

inductive Stop where
  | invalid
  | endOfData
  | badDistance
  | leftOver
  | outputFull
  deriving DecidableEq

inductive Before where
  /-- Nothing, or a repetition without literals. -/
  | repetition
  /-- A repetition with up to three literals. -/
  | literals
  | run
  deriving DecidableEq

structure Machine where
  next : Nat
  out : ByteArray
  before : Before

/-- Copies literals; three octets must be left behind them for the next instruction. Whether the
room or the data are looked at first tells what is wrong when both are short. -/
def copyRun (data : ByteArray) (room n : Nat) (m : Machine) : Except Stop Machine :=
  if room < m.out.size + n then .error .outputFull
  else if data.size < m.next + n + 3 then .error .endOfData
  else .ok ⟨m.next + n, appendSlice m.out data m.next n, .run⟩

def copyLiterals (data : ByteArray) (room n : Nat) (m : Machine) : Except Stop Machine :=
  if data.size < m.next + n + 3 then .error .endOfData
  else if room < m.out.size + n then .error .outputFull
  else .ok ⟨m.next + n, appendSlice m.out data m.next n, if n = 0 then .repetition else .literals⟩

def copyBack (data : ByteArray) (room distance length literals : Nat) (m : Machine) :
    Except Stop Machine :=
  if m.out.size < distance then .error .badDistance
  else if room < m.out.size + length then .error .outputFull
  else copyLiterals data room literals { m with out := repeatBack m.out distance length }

/-- A length that does not fit its field: zeros count 255 each, the first other octet counts
itself. -/
def longLength (data : ByteArray) : (fuel next length : Nat) → Except Stop (Nat × Nat)
  | 0, _, _ => .error .endOfData
  | fuel + 1, next, length =>
    if octetAt data next = 0 then
      if data.size < next + 2 then .error .endOfData
      else longLength data fuel (next + 1) (length + 255)
    else .ok (length + octetAt data next, next + 1)

/-- The length of a repetition whose field holds `n`, with room for the two octets that follow. -/
def repetitionLength (data : ByteArray) (n base next : Nat) : Except Stop (Nat × Nat) :=
  if n ≠ 0 then .ok (n + 2, next)
  else do
    let (length, next) ← longLength data (data.size + 1) next (base + 2)
    if data.size < next + 2 then .error .endOfData else return (length, next)

/-- What the last instruction leaves: it must have the shortest length and end the data. -/
def finish (data : ByteArray) (length next : Nat) : Except Stop Unit :=
  if length ≠ 3 then .error .invalid
  else if next < data.size then .error .leftOver
  else .ok ()

/-- Runs instructions up to the last one. The fuel is more than the number of octets. -/
def run (data : ByteArray) (room : Nat) : (fuel : Nat) → Machine → Except Stop ByteArray
  | 0, _ => .error .endOfData
  | fuel + 1, m => do
    let t := octetAt data m.next
    let next := m.next + 1
    if t < 16 then
      match m.before with
      | .repetition =>
        let (n, next) ← if t = 0 then longLength data (data.size + 1) next 15 else .ok (t, next)
        run data room fuel (← copyRun data room (n + 3) { m with next })
      | .literals =>
        let distance := 1 + t / 4 + 4 * octetAt data next
        run data room fuel (← copyBack data room distance 2 (t % 4) { m with next := next + 1 })
      | .run =>
        let distance := 2049 + t / 4 + 4 * octetAt data next
        run data room fuel (← copyBack data room distance 3 (t % 4) { m with next := next + 1 })
    else if 64 ≤ t then
      let distance := 1 + t / 4 % 8 + 8 * octetAt data next
      run data room fuel
        (← copyBack data room distance (t / 32 + 1) (t % 4) { m with next := next + 1 })
    else if 32 ≤ t then
      let (length, next) ← repetitionLength data (t % 32) 31 next
      let word := little data next 2
      run data room fuel
        (← copyBack data room (1 + word / 4) length (word % 4) { m with next := next + 2 })
    else
      let (length, next) ← repetitionLength data (t % 8) 7 next
      let word := little data next 2
      let far := 2048 * (t / 8 % 2) * 8 + word / 4
      let next := next + 2
      if far = 0 then
        finish data length next
        return m.out
      else
        run data room fuel (← copyBack data room (0x4000 + far) length (word % 4) { m with next })

/-- The first octet may stand for a run of literals. -/
def start (data : ByteArray) (room : Nat) : Except Stop Machine :=
  let m : Machine := ⟨0, ByteArray.empty, .repetition⟩
  let t := octetAt data 0
  if data.size < 3 then .error .endOfData
  else if t ≤ 17 then .ok m
  else if t < 21 then copyLiterals data room (t - 17) { m with next := 1 }
  else copyRun data room (t - 17) { m with next := 1 }

/-- The numbers by which the reasons are known. -/
def Stop.message : Stop → String
  | .invalid => "lzo1x error -1"
  | .endOfData => "lzo1x error -4"
  | .outputFull => "lzo1x error -5"
  | .badDistance => "lzo1x error -6"
  | .leftOver => "lzo1x error -8"

def decompress : Decompressor := fun bs room =>
  let data := bs.toByteArray
  let result := do run data room (data.size + 1) (← start data room)
  match result with
  | .ok out => .ok (some (Bytes.ofArray out))
  | .error .outputFull => .ok none
  | .error e => .error e.message

def lengthBytes (n : Nat) : Bytes :=
  List.replicate ((n - 1) / 255) 0 ++ [((n - 1) % 255 + 1).toUInt8]

def compress (bs : Bytes) : Bytes :=
  let n := bs.length
  let head : Bytes :=
    if n = 0 then [] else if n ≤ 238 then [(17 + n).toUInt8] else 0 :: lengthBytes (n - 18)
  head ++ (bs ++ [0x11, 0, 0])

end BackupVolume.Compression.Lzo1x
