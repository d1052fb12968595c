import BackupVolume.Proofs.Job.Course
import BackupVolume.Proofs.Restore.Closing

/-! # Keeping what a creator is asked for

An extraction does not look into its creator: where two creators do the same, so do the extractions.
A creator that also keeps a log of the files it opens and of the octets it is given for them
therefore restores the same files.
-/
namespace BackupVolume

def Disposition.map {η θ : Type} (g : η → θ) : Disposition η → Disposition θ
  | .file handle => .file (g handle)
  | .created => .created
  | .skipped => .skipped

structure FileCreator.Hom (φ ψ : Type) {η θ : Type} [FileCreator φ η] [FileCreator ψ θ] where
  state : φ → ψ
  handle : η → θ
  create (c : φ) (a : Attributes) : FileCreator.create (state c) a
    = (state (FileCreator.create c a).1, (FileCreator.create c a).2.map (Disposition.map handle))
  path (c : φ) (h : η) : FileCreator.path (state c) (handle h) = FileCreator.path c h
  seek (c : φ) (h : η) (address : Nat) : FileCreator.seek (state c) (handle h) address
    = (state (FileCreator.seek c h address).1, (FileCreator.seek c h address).2.map handle)
  write (c : φ) (h : η) (data : Bytes) : FileCreator.write (state c) (handle h) data
    = (state (FileCreator.write c h data).1, (FileCreator.write c h data).2.map handle)
  finish (c : φ) (h : η) (a : Attributes) : FileCreator.finish (state c) (handle h) a
    = (state (FileCreator.finish c h a).1, (FileCreator.finish c h a).2)

namespace Extraction
variable {σ φ ψ η θ : Type} [FileCreator φ η] [FileCreator ψ θ] (m : FileCreator.Hom φ ψ)

def mapFile (f : OpenFile η) : OpenFile θ := { f with handle := m.handle f.handle }

def map (w : Extraction φ η) : Extraction ψ θ :=
  ⟨m.state w.creator, w.decoder, w.opened.map (mapFile m)⟩

variable (j : State φ η)

theorem close_map : close (j.map (map m)) = ((close j).1.map (map m), (close j).2) := by
  obtain ⟨⟨creator, decoder, opened⟩, counts, pass⟩ := j
  cases opened with
  | none => rfl
  | some f =>
    have hfinish := m.finish creator f.handle f.attributes
    simp only [close, Job.map, map, mapFile, Option.map_some, hfinish, m.path]
    rfl

theorem openFile_map (o : JobOptions) (filter : Selection.PathFilter) (a : Attributes) :
    openFile o filter (j.map (map m)) a = (openFile o filter j a).map (map m) := by
  obtain ⟨⟨creator, decoder, opened⟩, counts, pass⟩ := j
  have hcreate := m.create creator a
  simp only [openFile]
  split
  · rfl
  split
  · rfl
  split
  · rfl
  simp only [Job.map, map, hcreate]
  rcases FileCreator.create creator a with ⟨c, e | ⟨handle⟩ | _ | _⟩ <;> rfl

theorem moveTo_map (f : OpenFile η) (address : Option Nat) :
    moveTo (j.map (map m)) (mapFile m f) address
      = ((moveTo j f address).1.map (map m), (moveTo j f address).2.map (mapFile m)) := by
  obtain ⟨⟨creator, decoder, opened⟩, counts, pass⟩ := j
  cases address with
  | none => rfl
  | some address =>
    have hseek := m.seek creator f.handle address
    by_cases hstays : address = f.address.toNat
    · have hsame : address = (mapFile m f).address.toNat := hstays
      simp only [moveTo, if_pos hsame, if_pos hstays]
      rfl
    · simp only [moveTo, Job.map, map, mapFile, if_neg hstays, hseek]
      rcases FileCreator.seek creator f.handle address with ⟨c, e | handle⟩
      · simp only [Except.map, m.path]
      · rfl

theorem write_map (address : Option Nat) (data : Bytes) :
    write (j.map (map m)) address data
      = ((write j address data).1.map (map m), (write j address data).2) := by
  obtain ⟨⟨creator, decoder, opened⟩, counts, pass⟩ := j
  cases opened with
  | none => rfl
  | some f =>
    have hmove := moveTo_map m ⟨⟨creator, decoder, some f⟩,
      { counts with bytes := counts.bytes + data.length }, pass⟩ f address
    simp only [Job.map, map, Option.map_some] at hmove
    simp only [write, Job.map, map, Option.map_some, hmove]
    rcases moveTo ⟨⟨creator, decoder, some f⟩,
      { counts with bytes := counts.bytes + data.length }, pass⟩ f address with ⟨k, e | g⟩
    · rfl
    · have hwrite := m.write k.work.creator g.handle data
      simp only [Except.map, mapFile, hwrite]
      rcases FileCreator.write k.work.creator g.handle data with ⟨c, e | handle⟩
      · simp only [m.path]
      · rfl

theorem perform_map (o : JobOptions) (filter : Selection.PathFilter) (action : Action) :
    perform o filter (j.map (map m)) action
      = ((perform o filter j action).1.map (map m), (perform o filter j action).2) := by
  cases action with
  | attributes a => simp only [perform, openFile_map]
  | write address data => exact write_map m j address data
  | nothing => rfl
  | fault f =>
    simp only [perform]
    split <;> rfl

theorem decode_map (o : JobOptions) (filter : Selection.PathFilter) (r : Record) :
    decode o filter (j.map (map m)) r
      = ((decode o filter j r).1.map (map m), (decode o filter j r).2) := by
  have hdecoder : (j.map (map m)).work.decoder = j.work.decoder := rfl
  simp only [decode, hdecoder]
  rcases j.work.decoder.decode r with ⟨d, e | action⟩
  · rfl
  · exact perform_map m { j with work := { j.work with decoder := d } } o filter action

theorem handle_map (o : JobOptions) (filter : Selection.PathFilter) (r : Record) :
    handle o filter (j.map (map m)) r
      = ((handle o filter j r).1.map (map m), (handle o filter j r).2) := by
  have hopened : (j.map (map m)).work.opened.isNone = j.work.opened.isNone := Option.isNone_map
  simp only [handle, hopened, close_map]
  split
  · rcases close j with ⟨k, e | ⟨⟨⟩⟩⟩
    · rfl
    · exact decode_map m k o filter r
  · split
    · rfl
    · exact decode_map m j o filter r

/-- What an extraction does is the same, whichever of the two creators it has. -/
theorem run_map [BlockSource σ] (o : JobOptions) (rules : Rules) (filter : Selection.PathFilter)
    (decoder : Decoder) (key : Option VolumeKey) (creator : φ) (source : σ) :
    run o rules filter decoder key (m.state creator) source =
      let outcome := run o rules filter decoder key creator source
      { outcome with creator := m.state outcome.creator } := by
  have hrun := Job.run_map o.proceed rules (map m) (fun j r => handle_map m j o filter r)
    { creator, decoder } ({ source, verify := o.verifyChecksums, key } : VolumeReader σ)
  have hstart : map m { creator, decoder } = { creator := m.state creator, decoder } := rfl
  rw [hstart] at hrun
  rw [run_eq hrun (close_map m _), run_eq rfl rfl]
  rfl

end Extraction
inductive FileEvent where
  | opened (file : Nat) (a : Attributes)
  | wrote (file : Nat) (data : Bytes)
  deriving DecidableEq

def FileEvent.opening? : FileEvent → Option Nat
  | .opened n _ => some n
  | .wrote _ _ => none

structure Logged (φ : Type) where
  creator : φ
  log : List FileEvent := []
  files : Nat := 0

namespace Logged
variable {φ η : Type} [FileCreator φ η]

def create (c : Logged φ) (a : Attributes) : Logged φ × Except IoFault (Disposition (η × Nat)) :=
  match FileCreator.create c.creator a with
  | (creator, .error e) => ({ c with creator }, .error e)
  | (creator, .ok (.file handle)) =>
    (⟨creator, c.log ++ [.opened c.files a], c.files + 1⟩, .ok (.file (handle, c.files)))
  | (creator, .ok .created) => ({ c with creator }, .ok .created)
  | (creator, .ok .skipped) => ({ c with creator }, .ok .skipped)

def write (c : Logged φ) (f : η × Nat) (data : Bytes) : Logged φ × Except IoFault (η × Nat) :=
  let (creator, x) := FileCreator.write c.creator f.1 data
  ({ c with creator, log := c.log ++ [.wrote f.2 data] }, x.map (·, f.2))

instance : FileCreator (Logged φ) (η × Nat) where
  create := create
  path c f := FileCreator.path c.creator f.1
  seek c f address :=
    let (creator, x) := FileCreator.seek c.creator f.1 address
    ({ c with creator }, x.map (·, f.2))
  write := write
  finish c f a :=
    let (creator, x) := FileCreator.finish c.creator f.1 a
    ({ c with creator }, x)

def unlogged : FileCreator.Hom (Logged φ) φ where
  state := creator
  handle := Prod.fst
  create c a := by
    simp only [FileCreator.create, create]
    rcases FileCreator.create c.creator a with ⟨x, e | ⟨handle⟩ | _ | _⟩ <;> rfl
  path _ _ := rfl
  seek c f address := by
    simp only [FileCreator.seek]
    rcases FileCreator.seek c.creator f.1 address with ⟨x, e | handle⟩ <;> rfl
  write c f data := by
    simp only [FileCreator.write, write]
    rcases FileCreator.write c.creator f.1 data with ⟨x, e | handle⟩ <;> rfl
  finish _ _ _ := rfl

end Logged
end BackupVolume
