import BackupVolume.Block.Layout
import BackupVolume.Configuration

/-! # Options of a job

How a job reads, writes and reports. Options are read from a JSON file, in which all members may be
missing, and are then checked: the size of blocks and the room for decompression have bounds.
-/
namespace BackupVolume

structure JobOptions where
  proceed : Bool := false
  dryRun : Bool := false
  verbosity : UInt8 := 0
  volumes : List String := []
  verifyChecksums : Bool := true
  decompressCap : Nat := 10000000
  scratchInitial : Nat := 70000
  blockSize : Nat := defaultBlockSize
  blockChecksums : Bool := true
  /-- Hold catalog entries back until the job has succeeded. -/
  spoolAttributes : Bool := false
  progressInterval : Nat := 200000
  deriving DecidableEq

namespace JobOptions
open Json.Reader

def fields : List (Member JobOptions) :=
  [⟨"forge_on", false, fun o => return { o with proceed := ← bool }⟩,
    ⟨"skip_extract", false, fun o => return { o with dryRun := ← bool }⟩,
    ⟨"verbose", false, fun o => return { o with verbosity := ← uint8 }⟩,
    ⟨"volume_names", false, fun o => return { o with volumes := ← list text }⟩,
    ⟨"verify_checksums", false, fun o => return { o with verifyChecksums := ← bool }⟩,
    ⟨"decompress_cap", false, fun o => return { o with decompressCap := ← size }⟩,
    ⟨"scratch_initial", false, fun o => return { o with scratchInitial := ← size }⟩,
    ⟨"block_size", false, fun o => return { o with blockSize := ← size }⟩,
    ⟨"block_checksums", false, fun o => return { o with blockChecksums := ← bool }⟩,
    ⟨"spool_attributes", false, fun o => return { o with spoolAttributes := ← bool }⟩,
    ⟨"progress_interval", false, fun o => return { o with progressInterval := ← uint64 }⟩]

def reader : Json.Reader JobOptions := record "JobOptions" fields {}

/-- The smallest block: a header, the header of a record and one octet. -/
def leastBlockSize : Nat :=
  HeaderLayout.bb03.headerLength .checksum + HeaderLayout.bb03.recordHeaderLength + 1

def validate (o : JobOptions) : Except ConfigError Unit :=
  if o.blockSize < leastBlockSize || maxBlockLength < o.blockSize then
    .error (.blockSize o.blockSize leastBlockSize maxBlockLength)
  else if o.decompressCap == 0 || o.scratchInitial == 0 then .error .noBuffer
  else if o.decompressCap < o.scratchInitial then
    .error (.bufferAboveCap o.scratchInitial o.decompressCap)
  else .ok ()

def load (f : ConfigFile) : Except ConfigError JobOptions := do
  let o ← f.read reader
  o.validate
  return o

end JobOptions
end BackupVolume
