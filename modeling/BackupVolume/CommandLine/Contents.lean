import BackupVolume.CommandLine.Setting

/-! # Listing the records of a volume

One line for every record, labels included. Damage is told where it is met, and ends the list
unless it is to be passed over.
-/
namespace BackupVolume.CommandLine

structure Contents where
  lines : Array String := #[]
  complaints : Array String := #[]
  counts : Counts := {}

namespace Contents

def row (fileIndex stream length id time : String) : String :=
  String.intercalate " " [Text.alignRight 8 fileIndex ++ " ", Text.alignLeft 28 stream,
    Text.alignRight 10 length ++ " ", Text.alignRight 8 id, Text.alignRight 10 time]

def heading : String := row "FileIdx" "Stream" "Length" "SessId" "SessTime"

def describe (r : Record) : String :=
  row (toString r.fileIndex) ((Record.labelName? r.fileIndex).getD r.tag.name)
    (toString r.payload.length) (toString r.session.id) (toString r.session.time)

def record (c : Contents) (r : Record) : Contents :=
  let isFile := r.tag.isAttributes && !r.isLabel
  { c with
    lines := c.lines.push (describe r)
    counts := { c.counts with
      records := c.counts.records + 1
      files := if isFile then c.counts.files + 1 else c.counts.files
      bytes := c.counts.bytes + r.payload.length } }

def complain (c : Contents) (e : Failure) : Contents :=
  { c with
    complaints := c.complaints.push e.message
    counts := { c.counts with errors := c.counts.errors + 1 } }

def visit (proceed : Bool) (c : Contents) : Finding → Contents × Option Unit
  | .record r => (c.record r, none)
  | .damage e => (c.complain e, if proceed then none else some ())

def ofReader {σ : Type} [BlockSource σ] (proceed : Bool) (reader : VolumeReader σ) :
    Contents × Summary :=
  let (c, reader, ending) := reader.traverse (visit proceed) { lines := #[heading] }
  let (c, status) : Contents × JobStatus := match ending with
    | .endOfData => (c, .terminated)
    | .stopped () => (c, .failed)
    | .unreadable e => (c.complain e, .failed)
  (c, ({ work := (), counts := c.counts } : Job Unit).summary reader.stats status)

end Contents

def DeviceRequest.run (r : DeviceRequest) : Task (Contents × Summary) := do
  let key ← Task.key r.passphrase
  let volumes ← openVolumes r.path (r.volumes.getD [])
  let source := deviceOf (← get) (blockMode r) volumes
  return Contents.ofReader r.proceed { source, verify := ({} : JobOptions).verifyChecksums, key }

end BackupVolume.CommandLine
