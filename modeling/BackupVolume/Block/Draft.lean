import BackupVolume.Block.Header
import BackupVolume.Record.Piece

/-! # Blocks being filled

A draft block takes records into its record area, up to a capacity. It remembers the first and the
last positive file index it holds; a block without one holds only labels. Packing stores the next
piece of a record where its header and at least one octet fit, and changes nothing otherwise.
-/
namespace BackupVolume

structure DraftBlock where
  capacity : Nat
  session : Session
  layout : HeaderLayout := .bb03
  options : BlockOptions := .checksum
  number : UInt32 := 0
  area : Array UInt8 := #[]
  firstIndex : Int32 := 0
  lastIndex : Int32 := 0

namespace DraftBlock

def used (d : DraftBlock) : Nat := d.area.size

def free (d : DraftBlock) : Nat := d.capacity - d.used

def isEmpty (d : DraftBlock) : Bool := d.area.isEmpty

def payload (d : DraftBlock) : Bytes := d.area.toList

/-- No record with a positive file index has been packed. -/
def holdsOnlyLabels (d : DraftBlock) : Bool := d.firstIndex == 0

def noteIndex (d : DraftBlock) (fileIndex : Int32) : DraftBlock :=
  if 0 < fileIndex then
    { d with
      firstIndex := if d.firstIndex == 0 then fileIndex else d.firstIndex
      lastIndex := fileIndex }
  else d

def reset (d : DraftBlock) (number : UInt32) : DraftBlock :=
  { d with number, area := #[], firstIndex := 0, lastIndex := 0 }

def needed (d : DraftBlock) (o : Outstanding) : Nat :=
  d.layout.recordHeaderLength + if o.isComplete then 0 else 1

/-- Stores the next piece of a record, as long as it fits; nothing if not even one octet does. -/
def pack (d : DraftBlock) (o : Outstanding) : Option (DraftBlock × Outstanding) :=
  if d.free < d.needed o then none
  else
    let room := d.free - d.layout.recordHeaderLength
    let piece := (o.header d.session).toBytes d.layout ++ o.rest.take room
    some ({ d with area := d.area ++ piece }.noteIndex o.fileIndex,
      { o with started := true, rest := o.rest.drop room })

def header (d : DraftBlock) : BlockHeader :=
  { layout := d.layout
    options := d.options
    length := (d.layout.headerLength d.options + d.used).toUInt32
    number := d.number
    session := d.session
    checksum := 0 }

def encodeAsIs (d : DraftBlock) : BlockHeader × Bytes := d.header.encode d.payload

def encode (d : DraftBlock) : Bytes := ({ d.header with layout := .bb03 }.encode d.payload).2

@[simp] theorem area_noteIndex (d : DraftBlock) (i : Int32) : (d.noteIndex i).area = d.area := by
  rw [noteIndex]; split <;> rfl

@[simp] theorem isEmpty_reset (d : DraftBlock) (n : UInt32) : (d.reset n).isEmpty = true := rfl

/-- Packing an unfinished record takes at least one octet of it. -/
theorem rest_lt_of_pack {d d' : DraftBlock} {o o' : Outstanding} (h : d.pack o = some (d', o'))
    (unfinished : o'.isComplete = false) : o'.rest.length < o.rest.length := by
  rw [pack] at h
  split at h
  · cases h
  · next room =>
    simp only [Option.some.injEq, Prod.mk.injEq] at h
    obtain ⟨-, rfl⟩ := h
    simp only [Outstanding.isComplete, List.isEmpty_eq_false_iff] at unfinished
    have some_left : o.isComplete = false := by
      rw [Outstanding.isComplete, List.isEmpty_eq_false_iff]
      rintro e
      simp [e] at unfinished
    have pos : 0 < o.rest.length := by
      rw [Outstanding.isComplete, List.isEmpty_eq_false_iff] at some_left
      exact List.length_pos_iff.mpr some_left
    simp only [needed, some_left, List.length_drop] at room ⊢
    simp at room
    omega

end DraftBlock
end BackupVolume
