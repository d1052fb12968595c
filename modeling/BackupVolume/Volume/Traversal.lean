import BackupVolume.Volume.Reader

/-! # Going through a volume

Everything a volume holds is handed to a visitor, record after record, until the visitor has had
enough, the data end, or the volume cannot be read on.
-/
namespace BackupVolume

/-- What a visitor is shown: a record, or what was lost at this place. -/
inductive Finding where
  | record (r : Record)
  | damage (e : Failure)

inductive Ending (ε : Type) where
  | endOfData
  | stopped (reason : ε)
  | unreadable (e : Failure)

namespace VolumeReader
variable {σ τ ε : Type} [BlockSource σ]

def traverse (visit : τ → Finding → τ × Option ε) (t : τ) (r : VolumeReader σ) :
    τ × VolumeReader σ × Ending ε :=
  match _next : r.nextRecord with
  | (s, .ok none) => (t, s, .endOfData)
  | (s, .ok (some record)) =>
    match visit t (.record record) with
    | (u, some reason) => (u, s, .stopped reason)
    | (u, none) => traverse visit u s
  | (s, .error e) =>
    if _scope : e.scope = .block then
      match visit t (.damage e) with
      | (u, some reason) => (u, s, .stopped reason)
      | (u, none) => traverse visit u s
    else (t, s, .unreadable e)
termination_by r.left
decreasing_by
  · exact left_nextRecord _next rfl
  · exact left_nextRecord _next _scope

end VolumeReader
end BackupVolume
