import BackupVolume.Attributes.Stat
import BackupVolume.Block.Header
import BackupVolume.Chunk.Rehydration
import BackupVolume.Compression.Codec
import BackupVolume.Configuration
import BackupVolume.Record.Assembly
import BackupVolume.Volume.Key

/-! # Failures of jobs

Everything that can fail in a job, and how far it reaches: a failure loses one record, one block or
the rest of the job.
-/
namespace BackupVolume

inductive Failure where
  | header (e : HeaderError)
  | record (e : RecordError)
  | codec (e : Compression.CodecError)
  | rehydration (e : RehydrationError)
  | crypto (e : CryptoError)
  | attributes (e : AttributeError)
  | shortPayload (tag : StreamTag) (length : Nat)
  | write (path : String) (fault : IoFault)
  | seek (path : String) (offset : Nat) (fault : IoFault)
  | device (fault : IoFault)
  | catalog (fault : IoFault)
  | config (e : ConfigError)
  deriving DecidableEq

inductive Scope where
  | record
  | block
  | job
  deriving DecidableEq

namespace Failure

def message : Failure → String
  | header e => "Corrupt block: " ++ e.message
  | record e => "Record error: " ++ e.message
  | codec e => "Codec error: " ++ e.message
  | rehydration e => e.message
  | crypto e => "Crypto error: " ++ e.message
  | attributes e => "Attribute error: " ++ e.message
  | shortPayload tag length =>
    "Payload of " ++ toString length ++ " bytes too short for stream " ++ tag.name
  | write path fault => "Write error on " ++ path ++ ": " ++ fault.text
  | seek path offset fault =>
    "Seek error on " ++ path ++ " at " ++ toString offset ++ ": " ++ fault.text
  | device fault => "Device error: " ++ fault.text
  | catalog fault => "Catalog error: " ++ fault.text
  | config e => "Configuration error: " ++ e.message

def scope : Failure → Scope
  | codec _ | shortPayload .. => .record
  | header _ | record _ | crypto _ => .block
  | rehydration _ | attributes _ | write .. | seek .. | device _ | catalog _ | config _ => .job

end Failure
end BackupVolume
