import BackupVolume.Job.Run
import BackupVolume.Restore.Creator
import BackupVolume.Restore.Decoder
import BackupVolume.Selection.PathFilter

/-! # Extraction

The files of a volume are restored. An attribute record closes the file that is open and opens the
next one; data records fill it. Data are written where the file has got to, or at the address that
they carry, with a seek only where that is another place. The address that a file has got to is kept
in 64 bits and starts over behind the last of them. File data that cannot be decoded close the file;
a record that is damaged makes it be abandoned, unless the job is to proceed. A dry run decodes
everything and creates nothing.
-/
namespace BackupVolume

structure OpenFile (η : Type) where
  handle : η
  attributes : Attributes
  /-- Where in the file the next data go, unless they tell. -/
  address : UInt64 := 0

structure Extraction (φ η : Type) where
  creator : φ
  decoder : Decoder
  opened : Option (OpenFile η) := none

namespace Extraction
variable {σ φ η : Type} [FileCreator φ η]

abbrev State (φ η : Type) := Job (Extraction φ η)

def noteFile (j : State φ η) : State φ η :=
  { j with counts := { j.counts with files := j.counts.files + 1 } }

def noteError (j : State φ η) : State φ η :=
  { j with counts := { j.counts with errors := j.counts.errors + 1 } }

def close (j : State φ η) : State φ η × Except Failure Unit :=
  match j.work.opened with
  | none => (j, .ok ())
  | some f =>
    let (creator, r) := FileCreator.finish j.work.creator f.handle f.attributes
    ({ j with work := { j.work with creator, opened := none } },
      r.mapError (.write (FileCreator.path creator f.handle)))

/-- Creates the file that attributes describe. A file that cannot be created is an error, but the
job goes on. -/
def openFile (o : JobOptions) (filter : Selection.PathFilter) (j : State φ η) (a : Attributes) :
    State φ η :=
  if !filter.accepts a.name then j
  else if o.dryRun then noteFile j
  else if a.type = .deleted then j
  else
    match FileCreator.create j.work.creator a with
    | (creator, .error _) => noteError { j with work := { j.work with creator } }
    | (creator, .ok d) =>
      let j := { j with work := { j.work with creator } }
      match d with
      | .file handle =>
        noteFile { j with work := { j.work with opened := some { handle, attributes := a } } }
      | .created => noteFile j
      | .skipped => j

/-- Moves the open file to an address that is given, if it is not there. -/
def moveTo (j : State φ η) (f : OpenFile η) :
    Option Nat → State φ η × Except Failure (OpenFile η)
  | none => (j, .ok f)
  | some address =>
    if address = f.address.toNat then (j, .ok f)
    else
      match FileCreator.seek j.work.creator f.handle address with
      | (creator, .error e) =>
        ({ j with work := { j.work with creator } },
          .error (.seek (FileCreator.path creator f.handle) address e))
      | (creator, .ok handle) =>
        let f := { f with handle, address := address.toUInt64 }
        ({ j with
          work := { j.work with creator, opened := some f }
          counts := { j.counts with seeks := j.counts.seeks + 1 } }, .ok f)

/-- Writes data into the open file, if there is one. -/
def write (j : State φ η) (address : Option Nat) (data : Bytes) :
    State φ η × Except Failure Unit :=
  let j := { j with counts := { j.counts with bytes := j.counts.bytes + data.length } }
  match j.work.opened with
  | none => (j, .ok ())
  | some f =>
    match moveTo j f address with
    | (j, .error e) => (j, .error e)
    | (j, .ok f) =>
      match FileCreator.write j.work.creator f.handle data with
      | (creator, .error e) =>
        ({ j with work := { j.work with creator } },
          .error (.write (FileCreator.path creator f.handle) e))
      | (creator, .ok handle) =>
        let f := { f with handle, address := f.address + data.length.toUInt64 }
        ({ j with work := { j.work with creator, opened := some f } }, .ok ())

def perform (o : JobOptions) (filter : Selection.PathFilter) (j : State φ η) :
    Action → State φ η × Except Failure Unit
  | .attributes a => (openFile o filter j a, .ok ())
  | .write address data => write j address data
  | .nothing => (j, .ok ())
  | .fault _ =>
    if o.proceed then (j, .ok ()) else ({ j with work := { j.work with opened := none } }, .ok ())

def decode (o : JobOptions) (filter : Selection.PathFilter) (j : State φ η) (r : Record) :
    State φ η × Except Failure Unit :=
  let (decoder, result) := j.work.decoder.decode r
  let j := { j with work := { j.work with decoder } }
  match result with
  | .error e => (j, .error e)
  | .ok action => perform o filter j action

/-- Works on one record. Data without an open file are passed over, except in a dry run. -/
def handle (o : JobOptions) (filter : Selection.PathFilter) (j : State φ η) (r : Record) :
    State φ η × Except Failure Unit :=
  if r.tag.isAttributes || r.tag.isOpaqueFileData then
    match close j with
    | (j, .error e) => (j, .error e)
    | (j, .ok ()) => decode o filter j r
  else if !o.dryRun && j.work.opened.isNone && (r.tag.isFileData || r.tag.isDedup) then
    (j, .ok ())
  else decode o filter j r

structure Outcome (σ φ : Type) where
  source : σ
  creator : φ
  result : Except Aborted Summary

def run [BlockSource σ] (o : JobOptions) (rules : Rules) (filter : Selection.PathFilter)
    (decoder : Decoder) (key : Option VolumeKey) (creator : φ) (source : σ) : Outcome σ φ :=
  let reader : VolumeReader σ := { source, verify := o.verifyChecksums, key }
  let (j, reader, outcome) := Job.run o.proceed rules (handle o filter) { creator, decoder } reader
  let (j, closed) := close j
  let (source, released) := BlockSource.release reader.source
  let counts := { j.counts with errors := j.counts.errors + j.work.decoder.stats.errors }
  let outcome := firstFailure outcome [closed, released.mapError .device]
  { source
    creator := j.work.creator
    result := { j with counts }.result reader.stats outcome }

end Extraction
end BackupVolume
