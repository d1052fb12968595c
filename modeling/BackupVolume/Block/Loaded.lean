import BackupVolume.Block.Header

/-! # Blocks being drained

A loaded block is the header of a block that was read, with the part of its record area that has
not been taken yet.
-/
namespace BackupVolume

structure LoadedBlock where
  header : BlockHeader
  /-- Where on its device the block was found. -/
  address : Nat
  rest : Bytes

namespace LoadedBlock

def decode (verify : Bool) (address : Nat) (raw : Bytes) : Except HeaderError LoadedBlock := do
  let (header, rest) ← BlockHeader.decode verify raw
  return { header, address, rest }

def layout (b : LoadedBlock) : HeaderLayout := b.header.layout
def session (b : LoadedBlock) : Session := b.header.session
def number (b : LoadedBlock) : UInt32 := b.header.number

def drop (b : LoadedBlock) (n : Nat) : LoadedBlock := { b with rest := b.rest.drop n }

def exhausted (b : LoadedBlock) : LoadedBlock := { b with rest := [] }

theorem drop_drop (b : LoadedBlock) (m n : Nat) : (b.drop m).drop n = b.drop (m + n) := by
  simp only [drop, List.drop_drop]

end LoadedBlock
end BackupVolume
