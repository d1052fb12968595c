import BackupVolume.Job.Run
import BackupVolume.Migration.Catalog
import BackupVolume.Volume.Writer

/-! # Copying volumes

The records of a volume are copied to another one under a new session, payloads unchanged, and the
catalog learns of files and digests. Entries may be spooled: the catalog then learns of them only
when the whole copy has succeeded. What has been copied is flushed at the end of every copy whose
destination still takes blocks.
-/
namespace BackupVolume

structure Migration (κ γ : Type) where
  writer : VolumeWriter κ
  catalog : γ
  spool : Array CatalogEntry := #[]

namespace Migration
variable {σ κ γ : Type} [BlockSink κ] [Catalog γ]

abbrev State (κ γ : Type) := Job (Migration κ γ)

/-- Tells the catalog of an entry, now or later. -/
def enter (o : JobOptions) (j : State κ γ) (e : CatalogEntry) : State κ γ × Except Failure Unit :=
  let files := if e.isFile then j.counts.files + 1 else j.counts.files
  let j := { j with counts := { j.counts with files } }
  if o.spoolAttributes then
    ({ j with work := { j.work with spool := j.work.spool.push e } }, .ok ())
  else
    let (catalog, r) := Catalog.insert j.work.catalog e
    ({ j with work := { j.work with catalog } }, r.mapError .catalog)

/-- Finds the entry for a record. Attributes that cannot be read are an error, but the record is
copied all the same. -/
def catalogRecord (o : JobOptions) (j : State κ γ) (r : Record) : State κ γ × Except Failure Unit :=
  match CatalogEntry.ofRecord r with
  | .ok none => (j, .ok ())
  | .ok (some e) => enter o j e
  | .error _ => ({ j with counts := { j.counts with errors := j.counts.errors + 1 } }, .ok ())

def handle (o : JobOptions) (session : Session) (j : State κ γ) (r : Record) :
    State κ γ × Except Failure Unit :=
  let r := { r with session }
  match catalogRecord o j r with
  | (j, .error e) => (j, .error e)
  | (j, .ok ()) =>
    let j := { j with counts := { j.counts with bytes := j.counts.bytes + r.payload.length } }
    let (writer, _, result) := j.work.writer.writeRecord r
    ({ j with work := { j.work with writer } }, result)

/-- Inserts entries up to the first one that is refused. -/
def insertAll (catalog : γ) : List CatalogEntry → γ × Except IoFault Unit
  | [] => (catalog, .ok ())
  | e :: es =>
    match Catalog.insert catalog e with
    | (catalog, .error e) => (catalog, .error e)
    | (catalog, .ok ()) => insertAll catalog es

def commit (catalog : γ) (spool : List CatalogEntry) : γ × Except IoFault Unit :=
  match insertAll catalog spool with
  | (catalog, .error e) => (catalog, .error e)
  | (catalog, .ok ()) => Catalog.commit catalog

structure Outcome (σ κ γ : Type) where
  source : σ
  sink : κ
  catalog : γ
  result : Except Aborted Summary

def run [BlockSource σ] (o : JobOptions) (rules : Rules) (sourceKey sinkKey : Option VolumeKey)
    (nonce : Nonce) (session : Session) (source : σ) (sink : κ) (catalog : γ) : Outcome σ κ γ :=
  let reader : VolumeReader σ := { source, verify := o.verifyChecksums, key := sourceKey }
  let writer := VolumeWriter.create sink o.blockSize session o.blockChecksums sinkKey nonce
  let (j, reader, outcome) := Job.run o.proceed rules (handle o session) { writer, catalog } reader
  let (writer, flushed) :=
    if outcome.isOk || BlockSink.canWrite j.work.writer.sink then j.work.writer.flush
    else (j.work.writer, .ok ())
  let (source, sourceReleased) := BlockSource.release reader.source
  let (sink, sinkReleased) := BlockSink.release writer.sink
  let outcome := firstFailure outcome
    [flushed, sourceReleased.mapError .device, sinkReleased.mapError .device]
  let (catalog, committed) := match outcome with
    | .ok .terminated => commit j.work.catalog j.work.spool.toList
    | _ => (j.work.catalog, .ok ())
  let outcome := firstFailure outcome [committed.mapError .catalog]
  { source, sink, catalog, result := j.result reader.stats outcome }

end Migration
end BackupVolume
