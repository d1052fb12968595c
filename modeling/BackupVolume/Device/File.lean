import BackupVolume.Block.Layout
import BackupVolume.Device.Octets
import BackupVolume.Device.Sink
import BackupVolume.Device.Source

/-! # Volumes in files

Blocks stand in a file back to back, each as long as it says, or in places of one size, padded with
zeros. In a packed file the length in the header of a block tells where the next one starts; once
a length cannot be right there is no way to find the next block.
-/
namespace BackupVolume

inductive BlockMode where
  | packed
  | fixed (size : Nat)
  deriving DecidableEq

structure FileSource (ρ : Type) where
  reader : ρ
  name : String
  mode : BlockMode
  position : Nat := 0

namespace FileSource
variable {ρ : Type} [OctetReader ρ]

def lostSync (f : FileSource ρ) (reason : String) : IoFault :=
  ⟨.invalidData, "lost block sync on " ++ f.name ++ " at byte " ++ toString f.position ++ ": "
    ++ reason⟩

def readPacked (f : FileSource ρ) (start : Bytes) (r : ρ) : ρ × Except IoFault Bytes :=
  if start.length < minHeaderLength then (r, .error (f.lostSync "truncated block header"))
  else
    let length := Bytes.toNat (start.slice 4 4)
    if length < minHeaderLength || maxBlockLength < length then
      (r, .error (f.lostSync "impossible block length"))
    else
      let (r, more) := OctetReader.fill r (length - minHeaderLength)
      (r, more.map (start ++ ·))

/-- The octets of the next block, none at the end of the file. -/
def readOctets (f : FileSource ρ) : ρ × Except IoFault Bytes :=
  match f.mode with
  | .fixed size => OctetReader.fill f.reader size
  | .packed =>
    match OctetReader.fill f.reader minHeaderLength with
    | (r, .error e) => (r, .error e)
    | (r, .ok []) => (r, .ok [])
    | (r, .ok (b :: bs)) => f.readPacked (b :: bs) r

def read (f : FileSource ρ) : FileSource ρ × Except IoFault (Option RawBlock) :=
  match f.readOctets with
  | (reader, .error e) => ({ f with reader }, .error e)
  | (reader, .ok []) => ({ f with reader }, .ok none)
  | (reader, .ok (b :: bs)) =>
    ({ f with reader, position := f.position + (bs.length + 1) },
      .ok (some ⟨f.position, b :: bs⟩))

theorem remaining_readPacked {f : FileSource ρ} {start : Bytes} {r s : ρ} {bs : Bytes}
    (h : f.readPacked start r = (s, .ok bs)) :
    bs.length + OctetReader.remaining s ≤ start.length + OctetReader.remaining r := by
  rw [readPacked] at h
  split at h
  · simp at h
  · simp only at h
    split at h
    · simp at h
    · cases filled : OctetReader.fill r (Bytes.toNat (start.slice 4 4) - minHeaderLength) with
      | mk t more =>
        rw [filled] at h
        cases more with
        | error e => simp [Except.map] at h
        | ok more =>
          have := OctetReader.remaining_fill filled
          simp only [Except.map, Prod.mk.injEq, Except.ok.injEq] at h
          rw [← h.1, ← h.2, List.length_append]
          omega

theorem remaining_readOctets {f : FileSource ρ} {s : ρ} {bs : Bytes}
    (h : f.readOctets = (s, .ok bs)) :
    bs.length + OctetReader.remaining s ≤ OctetReader.remaining f.reader := by
  rw [readOctets] at h
  split at h
  · exact OctetReader.remaining_fill h
  · split at h
    · simp at h
    · next filled =>
      have := OctetReader.remaining_fill filled
      simp only [Prod.mk.injEq, Except.ok.injEq] at h
      rw [← h.1, ← h.2]
      exact this
    · next filled =>
      have := OctetReader.remaining_fill filled
      have := remaining_readPacked h
      omega

instance : BlockSource (FileSource ρ) where
  name := FileSource.name
  read := read
  release f := (f, .ok ())
  remaining f := OctetReader.remaining f.reader
  remaining_read {f g b} h := by
    rw [read] at h
    split at h
    · simp at h
    · simp at h
    · next octets =>
      have := remaining_readOctets octets
      simp only [Prod.mk.injEq] at h
      rw [← h.1]
      simp only [List.length_cons] at this ⊢
      omega

end FileSource

structure FileSink where
  name : String
  mode : BlockMode
  contents : Array UInt8 := #[]
  isReleased : Bool := false

namespace FileSink

def stored (mode : BlockMode) (block : Bytes) : Except IoFault Bytes :=
  match mode with
  | .packed => .ok block
  | .fixed size =>
    let n := block.length
    if size < n then
      .error ⟨.invalidInput, "block of " ++ toString n ++ " bytes exceeds the " ++ toString size
        ++ "-byte physical block"⟩
    else .ok (block ++ List.replicate (size - n) 0)

def write (f : FileSink) (block : Bytes) : FileSink × Except IoFault Unit :=
  if f.isReleased then (f, .error ⟨.brokenPipe, f.name ++ " already released"⟩)
  else match stored f.mode block with
    | .ok bs => ({ f with contents := f.contents ++ bs }, .ok ())
    | .error e => (f, .error e)

def release (f : FileSink) : FileSink := { f with isReleased := true }

instance : BlockSink FileSink where
  name := FileSink.name
  write := write
  canWrite f := !f.isReleased
  release f := (f.release, .ok ())

end FileSink
end BackupVolume
