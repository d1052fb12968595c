import BackupVolume.Calendar
import BackupVolume.Failure
import BackupVolume.Number.Binary64

/-! # Summaries

How a job ended and what it counted.
-/
namespace BackupVolume

inductive JobStatus where
  | terminated
  | canceled
  | failed
  deriving DecidableEq

def JobStatus.name : JobStatus → String
  | terminated => "terminated"
  | canceled => "canceled"
  | failed => "failed"

structure Counts where
  files : Nat := 0
  records : Nat := 0
  errors : Nat := 0
  bytes : Nat := 0
  seeks : Nat := 0
  deriving DecidableEq

structure Summary where
  status : JobStatus
  files : Nat
  records : Nat
  errors : Nat
  blocks : Nat
  corruptBlocks : Nat
  bytes : Nat
  seeks : Nat
  deriving DecidableEq

structure Aborted where
  summary : Summary
  cause : Failure

def Aborted.message (a : Aborted) : String :=
  "job " ++ a.summary.status.name ++ " after " ++ toString a.summary.files ++ " files, "
    ++ toString a.summary.records ++ " records: " ++ a.cause.message

namespace Summary

/-- Milliseconds as seconds with three places. The number of seconds is a binary number of 64
bits, so that large ones are not exact. -/
def secondsText (milliseconds : Nat) : String :=
  let (a, b) := (Number.Binary64.nearest milliseconds 1).quotient
  let n := (Number.Binary64.nearest a (1000 * b)).roundScaled 3
  toString (n / 1000) ++ "." ++ Text.zeroPadded 3 (n % 1000) ++ "s"

def report (s : Summary) (started : Int) (elapsed : Nat) : List String :=
  let line (label value : String) : String := Text.alignLeft 17 (label ++ ":") ++ value
  [line "Status" s.status.name,
    line "Started" ((Calendar.timestamp? started).getD "" ++ " UTC"),
    line "Files" (toString s.files),
    line "Records" (toString s.records),
    line "Blocks" (toString s.blocks ++ " (" ++ toString s.corruptBlocks ++ " corrupt)"),
    line "Bytes" (toString s.bytes),
    line "Errors" (toString s.errors),
    line "Elapsed" (secondsText elapsed)]

end Summary
end BackupVolume
