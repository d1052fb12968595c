import BackupVolume.Chunk.Store
import BackupVolume.CommandLine.Setting
import BackupVolume.Restore.Extraction
import BackupVolume.Restore.LocalFiles

/-! # Restoring files on request

The options in the configuration file come first; those on the command line are added to them or
take their place. The volumes are those on the command line, else those in the options, else those
that the bootstrap names.
-/
namespace BackupVolume.CommandLine.ExtractRequest

def amend (r : ExtractRequest) (o : JobOptions) : JobOptions :=
  { o with
    proceed := o.proceed || r.device.proceed
    dryRun := o.dryRun || r.dryRun
    verbosity := max o.verbosity r.device.verbosity
    volumes := r.device.volumes.getD o.volumes }

def options (r : ExtractRequest) : Task JobOptions :=
  match r.config with
  | none => return r.amend {}
  | some path => do return r.amend (← Task.config (JobOptions.load (← Task.configFile path)))

def listFile : Option String → Task (Option ConfigFile)
  | none => return none
  | some path => return some (← Task.configFile path)

def filter (r : ExtractRequest) : Task Selection.PathFilter := do
  Task.config (Selection.PathFilter.ofLists (← listFile r.includes) (← listFile r.excludes))

def rehydrator (r : ExtractRequest) : Task Rehydrator :=
  match r.chunks with
  | none => return .unaware
  | some path => do
    let files ← Task.file ((← get).filesIn path)
    return (ChunkStore.ofFiles (files.map fun (name, content) => (name, content.toList))).rehydrate

def run (r : ExtractRequest) : Task Summary := do
  let o ← r.options
  let b ← Task.bootstrap r.bootstrap
  let volumes ← openVolumes r.device.path (if o.volumes.isEmpty then b.volumes else o.volumes)
  if !o.dryRun then Task.change (·.makeAll r.output)
  let filter ← r.filter
  let decoder := Decoder.create o (← r.rehydrator)
  let key ← Task.key r.device.passphrase
  let tree ← get
  let outcome := Extraction.run o { selector := b.selector } filter decoder key
    ({ tree, root := r.output } : LocalFiles) (deviceOf tree (blockMode r.device) volumes)
  set outcome.creator.tree
  Task.finish outcome.result

end BackupVolume.CommandLine.ExtractRequest
