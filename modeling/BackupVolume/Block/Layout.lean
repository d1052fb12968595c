import BackupVolume.Bytes

/-! # Layouts of block headers

A block starts with one of three header layouts, told apart by four octets. The first two always
carry a 32-bit checksum in front; the third starts with an option word, and one of the options adds
a 64-bit checksum behind the fixed fields.
-/
namespace BackupVolume

structure BlockOptions where
  bits : UInt32
  deriving DecidableEq

namespace BlockOptions

def none : BlockOptions := ⟨0⟩
def checksum : BlockOptions := ⟨1⟩
def volumeSealed : BlockOptions := ⟨2⟩
/-- The record area of this block is encrypted. -/
def blockSealed : BlockOptions := ⟨4⟩

def contains (o p : BlockOptions) : Bool := o.bits &&& p.bits == p.bits

def union (o p : BlockOptions) : BlockOptions := ⟨o.bits ||| p.bits⟩

def ofBits? (w : UInt32) : Option BlockOptions := if w &&& 7 == w then some ⟨w⟩ else Option.none

end BlockOptions

inductive HeaderLayout where
  | bb01
  | bb02
  | bb03
  deriving DecidableEq

namespace HeaderLayout

def all : List HeaderLayout := [bb01, bb02, bb03]

def version : HeaderLayout → Nat
  | bb01 => 1
  | bb02 => 2
  | bb03 => 3

def tag : HeaderLayout → Bytes
  | bb01 => [0x42, 0x42, 0x30, 0x31]
  | bb02 => [0x42, 0x42, 0x30, 0x32]
  | bb03 => [0x42, 0x42, 0x30, 0x33]

def ofTag? (t : Bytes) : Option HeaderLayout := all.find? fun l => l.tag == t

/-- The length of the header without a checksum behind its fixed fields. -/
def fixedLength : HeaderLayout → Nat
  | bb01 => 16
  | bb02 => 24
  | bb03 => 24

def alwaysChecksummed : HeaderLayout → Bool
  | bb01 => true
  | bb02 => true
  | bb03 => false

def hasSession : HeaderLayout → Bool
  | bb01 => false
  | bb02 => true
  | bb03 => true

def isChecksummed (l : HeaderLayout) (o : BlockOptions) : Bool :=
  l.alwaysChecksummed || o.contains .checksum

def headerLength (l : HeaderLayout) (o : BlockOptions) : Nat :=
  if !l.alwaysChecksummed && o.contains .checksum then l.fixedLength + 8 else l.fixedLength

def recordHeaderLength : HeaderLayout → Nat
  | bb01 => 20
  | bb02 => 12
  | bb03 => 12

theorem ofTag?_tag (l : HeaderLayout) : ofTag? l.tag = some l := by cases l <;> rfl

@[simp] theorem length_tag (l : HeaderLayout) : l.tag.length = 4 := by cases l <;> rfl

theorem headerLength_pos (l : HeaderLayout) (o : BlockOptions) : 16 ≤ l.headerLength o := by
  cases l <;> simp [headerLength, alwaysChecksummed, fixedLength]
  split <;> omega

theorem recordHeaderLength_pos (l : HeaderLayout) : 0 < l.recordHeaderLength := by
  cases l <;> decide

end HeaderLayout

/-- The smallest header; also what has to be read of a block to learn its length. -/
def minHeaderLength : Nat := 16

def defaultBlockSize : Nat := 64512

def maxBlockLength : Nat := 20000000

end BackupVolume
