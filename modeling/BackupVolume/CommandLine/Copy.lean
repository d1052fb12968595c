import BackupVolume.CommandLine.Setting
import BackupVolume.Migration.Copy

/-! # Copying volumes on request

The new volume is made before anything is read, and so is the file for the catalog; what is in
their way is lost.
-/
namespace BackupVolume.CommandLine.CopyRequest

def options (r : CopyRequest) : JobOptions :=
  { proceed := r.device.proceed
    verbosity := r.device.verbosity
    spoolAttributes := r.spool
    volumes := r.device.volumes.getD []
    blockSize := r.device.fixedBlock.getD defaultBlockSize }

def openCatalog : Option String → Task (Option Nat)
  | none => return none
  | some path => return some (← Task.change (·.openEmpty path))

def run (now : UInt32) (nonce : Nonce) (r : CopyRequest) : Task Summary := do
  let o := r.options
  Task.config o.validate
  let b ← Task.bootstrap r.bootstrap
  let volumes ← openVolumes r.device.path (if o.volumes.isEmpty then b.volumes else o.volumes)
  let destination ← Task.change (·.openEmpty r.destination)
  let catalogFile ← openCatalog r.catalog
  let sourceKey ← Task.key r.device.passphrase
  let sinkKey ← Task.key r.destinationPassphrase
  let mode := blockMode r.device
  let catalog : LineCatalog ⊕ NoCatalog := if catalogFile.isSome then .inl {} else .inr {}
  let outcome := Migration.run o { selector := b.selector } sourceKey sinkKey nonce
    ⟨r.sessionId, r.sessionTime.getD now⟩ (deviceOf (← get) mode volumes)
    ({ name := r.destination, mode } : FileSink) catalog
  Task.change (·.writeAt destination 0 outcome.sink.contents.toList)
  if let some file := catalogFile then
    let text := outcome.catalog.elim LineCatalog.text fun _ => ""
    Task.change (·.writeAt file 0 (Text.Utf8.encode text))
  Task.finish outcome.result

end BackupVolume.CommandLine.CopyRequest
