import BackupVolume.Attributes.Basic
import BackupVolume.Compression.Container
import BackupVolume.Job.Options
import BackupVolume.Restore.Action

/-! # Decoding records

A decoder turns one complete record into an action. Deduplicated payloads are put together first;
the kind of the stream then tells what the payload is. A record that cannot be decompressed is a
fault of that record alone. What a decoder keeps from record to record is room and counts.
-/
namespace BackupVolume

inductive Treatment where
  | attributes
  | plain
  | inflate
  | unwrap
  | ignore
  deriving DecidableEq

namespace Treatment
open StreamKind

/-- Kinds that are not listed are not supported. -/
def ofKind? : StreamKind → Option Treatment
  | unixAttributes | unixAttributesEx | unixAttributeUpdate => some attributes
  | fileData | sparseData | win32Data => some plain
  | gzipData | sparseGzipData | win32GzipData => some inflate
  | compressedData | sparseCompressedData | win32CompressedData => some unwrap
  | md5Digest | sha1Digest | sha256Digest | sha512Digest | signedDigest
  | encryptedSessionData | pluginName | restoreObject | pluginObject | pluginMetaBlob
  | pluginMetaCatalog | programNames | programData => some ignore
  | _ => none

end Treatment

structure DecoderStats where
  records : Nat := 0
  rehydrated : Nat := 0
  inflated : Nat := 0
  /-- Faults of single records, and damage of deduplicated payloads. -/
  errors : Nat := 0
  unsupported : Nat := 0
  deriving DecidableEq

structure Decoder where
  /-- Make do with what can be recovered of a deduplicated payload. -/
  proceed : Bool := false
  rehydrator : Rehydrator := .unaware
  unpacker : Record → Except AttributeError Attributes := Attributes.ofRecord
  codecs : Compression.Codecs := {}
  scratch : Compression.Scratch
  stats : DecoderStats := {}

namespace Decoder

def create (o : JobOptions) (rehydrator : Rehydrator := .unaware) : Decoder :=
  { proceed := o.proceed, rehydrator, scratch := .ofSizes o.scratchInitial o.decompressCap }

def noteError (d : Decoder) : Decoder :=
  { d with stats := { d.stats with errors := d.stats.errors + 1 } }

def rehydrated (d : Decoder) (r : Record) (payload : Bytes) : Decoder × Except Failure Record :=
  ({ d with stats := { d.stats with rehydrated := d.stats.rehydrated + 1 } },
    .ok { r with payload, tag := r.tag.withoutDedup })

def rehydrate (d : Decoder) (r : Record) : Decoder × Except Failure Record :=
  if !r.tag.isDedup then (d, .ok r)
  else match d.rehydrator r with
    | .ok payload => d.rehydrated r payload
    | .error (.fatal m) => (d, .error (.rehydration (.fatal m)))
    | .error (.recoverable m recovered) =>
      if d.proceed then d.noteError.rehydrated r recovered
      else (d.noteError, .error (.rehydration (.recoverable m recovered)))

def decompress (d : Decoder) (r : Record)
    (f : Bytes → Compression.Scratch → Except Compression.CodecError Bytes × Compression.Scratch) :
    Decoder × Except Failure Action :=
  match r.splitAddress with
  | .error e => (d, .error e)
  | .ok (address, packed) =>
    match f packed d.scratch with
    | (.error e, scratch) => ({ d with scratch }, .error (.codec e))
    | (.ok data, scratch) =>
      ({ d with scratch, stats := { d.stats with inflated := d.stats.inflated + 1 } },
        .ok (.write address data))

def treat (d : Decoder) (r : Record) : Decoder × Except Failure Action :=
  match r.tag.kind?.bind Treatment.ofKind? with
  | some .attributes =>
    match d.unpacker r with
    | .ok a => (d, .ok (.attributes a))
    | .error e => (d, .error (.attributes e))
  | some .plain =>
    match r.splitAddress with
    | .ok (address, data) => (d, .ok (.write address data))
    | .error e => (d, .error e)
  | some .inflate => d.decompress r d.codecs.inflate
  | some .unwrap => d.decompress r d.codecs.unwrap
  | some .ignore => (d, .ok .nothing)
  | none =>
    ({ d with stats := { d.stats with unsupported := d.stats.unsupported + 1 } }, .ok .nothing)

/-- Decodes one complete record. It fails only where the job cannot go on. -/
def decode (d : Decoder) (r : Record) : Decoder × Except Failure Action :=
  let d := { d with stats := { d.stats with records := d.stats.records + 1 } }
  match d.rehydrate r with
  | (d, .error e) => (d, .error e)
  | (d, .ok r) =>
    match d.treat r with
    | (d, .ok action) => (d, .ok action)
    | (d, .error e) =>
      if e.scope = .record then
        (d.noteError, .ok (.fault ⟨r.fileIndex, r.tag, r.blockNumber, e⟩))
      else (d, .error e)

end Decoder
end BackupVolume
