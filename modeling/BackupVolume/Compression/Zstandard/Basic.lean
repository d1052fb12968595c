import BackupVolume.Compression.Bits

/-! # What can be wrong with a frame

The reasons for which a frame is refused, and fields of bits that are read from the end of a
section towards its start.
-/
namespace BackupVolume.Compression.Zstandard

inductive FrameError where
  | unknownDescriptor
  | oldVersion
  | unsupportedParameter
  | windowTooLarge
  | corrupt
  | checksumMismatch
  | badLiteralsHeader
  | missingTable
  | needsDictionary
  | blockTooLarge
  | sourceSize
  | incomplete
  deriving DecidableEq

def FrameError.message : FrameError → String
  | .unknownDescriptor => "Unknown frame descriptor"
  | .oldVersion => "Version not supported"
  | .unsupportedParameter => "Unsupported frame parameter"
  | .windowTooLarge => "Frame requires too much memory for decoding"
  | .corrupt => "Data corruption detected"
  | .checksumMismatch => "Restored data doesn't match checksum"
  | .badLiteralsHeader => "Header of Literals' block doesn't respect format specification"
  | .missingTable => "Dictionary is corrupted"
  | .needsDictionary => "Dictionary mismatch"
  | .blockTooLarge => "Destination buffer is too small"
  | .sourceSize => "Src size is incorrect"
  | .incomplete => "incomplete frame"

abbrev Result (α : Type) := Except FrameError α

def require (p : Bool) (e : FrameError) : Result Unit := if p then .ok () else .error e

/-- Bits that are read backwards: the field last written comes first. `left` counts the bits not
yet read and is negative once more bits were read than there are; those are zero. -/
structure BackwardBits where
  data : ByteArray
  start : Nat
  left : Int

namespace BackwardBits

/-- A section of `n` octets. Its last set bit only marks the end. -/
def ofSection (data : ByteArray) (i n : Nat) : Result BackwardBits :=
  if n = 0 then .error .corrupt
  else
    let last := octetAt data (i + n - 1)
    if last = 0 then .error .corrupt
    else .ok ⟨data, 8 * i, (8 * (n - 1) + last.log2 : Nat)⟩

def peek (b : BackwardBits) (n : Nat) : Nat :=
  if n ≤ b.left then field b.data (b.start + (b.left - n).toNat) n
  else if 0 < b.left then
    field b.data b.start b.left.toNat <<< (n - b.left.toNat)
  else 0

def skip (b : BackwardBits) (n : Nat) : BackwardBits := { b with left := b.left - n }

def read (b : BackwardBits) (n : Nat) : Nat × BackwardBits := (b.peek n, b.skip n)

def isAtEnd (b : BackwardBits) : Bool := b.left == 0

def isOverrun (b : BackwardBits) : Bool := b.left < 0

end BackwardBits
end BackupVolume.Compression.Zstandard
