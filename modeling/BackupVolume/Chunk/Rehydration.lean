import BackupVolume.Record.Basic

/-! # Payloads that were deduplicated

A record whose tag carries the dedup bit holds references instead of its payload. A rehydrator
turns them back into the payload; it may give up, or tell what it could recover.
-/
namespace BackupVolume

inductive RehydrationError where
  | fatal (message : String)
  /-- The record is damaged; some octets could be recovered. -/
  | recoverable (message : String) (recovered : Bytes)
  deriving DecidableEq

def RehydrationError.message : RehydrationError → String
  | .fatal m => "rehydration failed: " ++ m
  | .recoverable m _ => "rehydration incomplete: " ++ m

abbrev Rehydrator := Record → Except RehydrationError Bytes

/-- For devices on which nothing was deduplicated. -/
def Rehydrator.unaware : Rehydrator := fun r =>
  .error (.fatal ("device is not dedup aware (file index " ++ toString r.fileIndex ++ ", stream "
    ++ r.tag.name ++ ")"))

end BackupVolume
