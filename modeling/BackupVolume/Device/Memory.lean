import BackupVolume.Device.Sink
import BackupVolume.Device.Source

/-! # Volumes in memory

A list of blocks, read from a cursor on and written at its end.
-/
namespace BackupVolume

structure MemoryVolume where
  name : String
  blocks : Array Bytes := #[]
  cursor : Nat := 0
  isWritable : Bool := true
  isReleased : Bool := false

namespace MemoryVolume

def ofBlocks (name : String) (blocks : List Bytes) : MemoryVolume :=
  { name, blocks := blocks.toArray }

def canWrite (v : MemoryVolume) : Bool := v.isWritable && !v.isReleased

def read (v : MemoryVolume) : MemoryVolume × Option RawBlock :=
  match v.blocks[v.cursor]? with
  | some bytes => ({ v with cursor := v.cursor + 1 }, some ⟨v.cursor, bytes⟩)
  | none => (v, none)

def write (v : MemoryVolume) (bytes : Bytes) : MemoryVolume × Except IoFault Unit :=
  if v.canWrite then ({ v with blocks := v.blocks.push bytes }, .ok ())
  else (v, .error ⟨.brokenPipe, v.name ++ " is not writable"⟩)

def release (v : MemoryVolume) : MemoryVolume := { v with isReleased := true }

/-- Back to the first block, as before any release. -/
def rewind (v : MemoryVolume) : MemoryVolume := { v with cursor := 0, isReleased := false }

theorem remaining_read {v w : MemoryVolume} {b : RawBlock} (h : v.read = (w, some b)) :
    w.blocks.size - w.cursor < v.blocks.size - v.cursor := by
  rw [read] at h
  split at h
  · next found =>
    have inside := (Array.getElem?_eq_some_iff.mp found).1
    simp only [Prod.mk.injEq] at h
    rw [← h.1]
    simp only
    omega
  · simp at h

instance : BlockSource MemoryVolume where
  name := MemoryVolume.name
  read v := (v.read.1, .ok v.read.2)
  release v := (v.release, .ok ())
  remaining v := v.blocks.size - v.cursor
  remaining_read h := by
    simp only [Prod.mk.injEq, Except.ok.injEq] at h
    exact remaining_read (Prod.ext h.1 h.2)

instance : BlockSink MemoryVolume where
  name := MemoryVolume.name
  write := write
  canWrite := canWrite
  release v := (v.release, .ok ())

end MemoryVolume
end BackupVolume
