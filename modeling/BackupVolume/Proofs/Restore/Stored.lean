import BackupVolume.Proofs.FileTree.Filling
import BackupVolume.Proofs.Restore.Decoding

/-! # Stored files

A file is stored as a record that describes it and a record for each of its chunks, in the order of
the content. Zeros may be left out in front of a chunk that has its address, and at the end of the
content where the status of the file tells its length.
-/
namespace BackupVolume
open Compression

structure StoredFile where
  attributes : Attributes
  /-- The tag and the payload of the record that describes the file. -/
  tag : StreamTag
  payload : Bytes
  chunks : List StoredChunk := []
  tail : Nat := 0

namespace StoredChunk

def laid (cs : List StoredChunk) : Bytes := cs.flatMap fun c => List.replicate c.gap 0 ++ c.data

def records (codecs : Codecs) (fileIndex : Int32) :
    (before : Nat) → List StoredChunk → List (Record × Nat)
  | _, [] => []
  | before, c :: cs =>
    (c.record codecs fileIndex (before + c.gap), c.pieceSize)
      :: records codecs fileIndex (before + c.gap + c.data.length) cs

/-- How far a file reaches when chunks have been written that follow `before` octets, and when it
reached to `reached` before. -/
def reach : (before reached : Nat) → List StoredChunk → Nat
  | _, reached, [] => reached
  | before, reached, c :: cs =>
    let stop := before + c.gap + c.data.length
    reach stop (if c.data.isEmpty then reached else stop) cs

theorem laid_cons (c : StoredChunk) (cs : List StoredChunk) :
    laid (c :: cs) = List.replicate c.gap 0 ++ c.data ++ laid cs := List.flatMap_cons

end StoredChunk

namespace StoredFile

def content (f : StoredFile) : Bytes := StoredChunk.laid f.chunks ++ List.replicate f.tail 0

def size (f : StoredFile) : Nat := f.attributes.stat.size.toInt.toNat

def description (f : StoredFile) : Record :=
  { fileIndex := f.attributes.fileIndex, tag := f.tag, payload := f.payload }

def records (codecs : Codecs) (f : StoredFile) : List (Record × Nat) :=
  (f.description, 0) :: StoredChunk.records codecs f.attributes.fileIndex 0 f.chunks

def plan (codecs : Codecs) (files : List StoredFile) : List (Record × Nat) :=
  files.flatMap (records codecs)

/-- A regular file: its first record describes it, its chunks can be decoded, and the size tells
where the content ends unless something is written up to there. -/
structure IsSound (codecs : Codecs) (cap : Nat) (f : StoredFile) : Prop where
  tag : 0 < f.tag.raw
  kind : f.tag.isAttributes = true
  whole : f.tag.isDedup = false
  decodes : Attributes.decode f.payload = .ok f.attributes
  index : 0 ≤ f.attributes.fileIndex
  regular : f.attributes.isRegular = true
  chunks : ∀ c ∈ f.chunks, c.IsSound codecs cap
  ends : f.content.length = max (StoredChunk.reach 0 0 f.chunks) f.size
  length : f.content.length ≤ FileTree.maxFileLength

/-- Where the content of a file stands when the chunks `rest` are still to come: so much is written,
and what comes next belongs at `address`. -/
structure Stands (f : StoredFile) (written : Bytes) (address : Nat) (rest : List StoredChunk) :
    Prop where
  behind : written.length ≤ address
  content : FileTree.padded written address ++ StoredChunk.laid rest ++ List.replicate f.tail 0
    = f.content
  reach : StoredChunk.reach address written.length rest = StoredChunk.reach 0 0 f.chunks

def writtenNext (written : Bytes) (address : Nat) (c : StoredChunk) : Bytes :=
  if c.data.isEmpty then written else FileTree.padded written (address + c.gap) ++ c.data

theorem stands_nil (f : StoredFile) : f.Stands [] 0 f.chunks := ⟨Nat.le_refl 0, rfl, rfl⟩

namespace Stands
variable {f : StoredFile} {written : Bytes} {address : Nat} {c : StoredChunk}
  {rest : List StoredChunk}

/-- The chunk that comes next has its place in the content. -/
theorem next_le (h : f.Stands written address (c :: rest)) :
    address + c.gap + c.data.length ≤ f.content.length := by
  rw [← h.content, List.length_append, List.length_append, FileTree.length_padded h.behind,
    StoredChunk.laid_cons, List.length_append, List.length_append, List.length_replicate]
  omega

theorem next (h : f.Stands written address (c :: rest)) :
    f.Stands (writtenNext written address c) (address + c.gap + c.data.length) rest := by
  have hgap := FileTree.padded_add h.behind c.gap
  have hcontent := h.content
  have hreach := h.reach
  rw [StoredChunk.laid_cons] at hcontent
  rw [StoredChunk.reach] at hreach
  unfold writtenNext
  by_cases hempty : c.data.isEmpty = true
  · have hnil : c.data = [] := by simpa using hempty
    rw [if_pos hempty]
    rw [if_pos hempty] at hreach
    simp only [hnil, List.length_nil, Nat.add_zero, List.append_nil] at hcontent hreach ⊢
    refine ⟨Nat.le_trans h.behind (Nat.le_add_right _ _), ?_, hreach⟩
    rw [hgap, ← hcontent, List.append_assoc]
    simp
  · rw [if_neg hempty]
    rw [if_neg hempty] at hreach
    have hbehind : written.length ≤ address + c.gap := Nat.le_trans h.behind (Nat.le_add_right _ _)
    have hlength : (FileTree.padded written (address + c.gap) ++ c.data).length
        = address + c.gap + c.data.length := by
      rw [List.length_append, FileTree.length_padded hbehind]
    refine ⟨Nat.le_of_eq hlength, ?_, ?_⟩
    · have hfull : FileTree.padded (FileTree.padded written (address + c.gap) ++ c.data)
          (address + c.gap + c.data.length)
          = FileTree.padded written (address + c.gap) ++ c.data := by
        rw [FileTree.padded, hlength, Nat.sub_self, List.replicate_zero, List.append_nil]
      rw [hfull, hgap, ← hcontent]
      simp
    · rw [hlength]
      exact hreach

/-- When all chunks are written, the size of the file makes the content complete. -/
theorem padded_size {codecs : Codecs} {cap : Nat} (hf : f.IsSound codecs cap)
    (h : f.Stands written address []) : FileTree.padded written f.size = f.content := by
  have hcontent := h.content
  have hends := hf.ends
  rw [← h.reach, StoredChunk.reach] at hends
  have hlaid : StoredChunk.laid [] = [] := rfl
  rw [hlaid, List.append_nil, FileTree.padded, List.append_assoc,
    List.replicate_append_replicate] at hcontent
  have hlength := congrArg List.length hcontent
  rw [List.length_append, List.length_replicate] at hlength
  have hzeros : address - written.length + f.tail = f.size - written.length := by omega
  rw [← hcontent, FileTree.padded, hzeros]

end Stands
end StoredFile
end BackupVolume
