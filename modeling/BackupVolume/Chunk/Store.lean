import BackupVolume.Chunk.Rehydration
import BackupVolume.Digest.Blake3
import BackupVolume.Text.Hex

/-! # Chunk stores

A chunk is stored once, under the digest of its octets. A payload is replaced by a list of
references, each a digest and the length of the chunk; rehydration puts the chunks together again
and stops at the first one that is missing or has another length.
-/
namespace BackupVolume

structure ChunkStore where
  entries : List (Bytes × Bytes) := []

namespace ChunkStore

def digest (chunk : Bytes) : Bytes := Digest.Blake3.hash chunk

def size (s : ChunkStore) : Nat := s.entries.length

def isEmpty (s : ChunkStore) : Bool := s.entries.isEmpty

def get? (s : ChunkStore) (digest : Bytes) : Option Bytes := s.entries.lookup digest

def insert (s : ChunkStore) (chunk : Bytes) : ChunkStore :=
  let d := digest chunk
  if (s.get? d).isSome then s else ⟨(d, chunk) :: s.entries⟩

/-- The digest that the name of a chunk file tells: 64 hexadecimal digits. -/
def digestOfName? (name : String) : Option Bytes :=
  match Text.Hex.toBytes? name with
  | some d => if d.length = 32 then some d else none
  | none => none

/-- Stores a file under the digest in its name, if that is the digest of its content. -/
def insertFile (s : ChunkStore) (name : String) (content : Bytes) : ChunkStore :=
  match digestOfName? name with
  | some d => if digest content = d then s.insert content else s
  | none => s

def ofFiles (files : List (String × Bytes)) : ChunkStore :=
  files.foldl (fun s f => s.insertFile f.1 f.2) {}

def referenceLength : Nat := 36

def reference (chunk : Bytes) : Bytes := digest chunk ++ Bytes.ofUInt32 chunk.length.toUInt32

def insertAll (s : ChunkStore) (data : Bytes) (size : Nat) : ChunkStore × Bytes :=
  let pieces := Bytes.chunks size data
  (pieces.foldl insert s, pieces.flatMap reference)

def resolve (s : ChunkStore) : (done : Array UInt8) → List Bytes → Except RehydrationError Bytes
  | done, [] => .ok done.toList
  | done, r :: rs =>
    let digest := r.take 32
    let declared := (Bytes.toUInt32 (r.drop 32)).toNat
    match s.get? digest with
    | none =>
      .error (.recoverable ("chunk " ++ Text.Hex.ofBytes digest ++ " not found") done.toList)
    | some chunk =>
      let actual := chunk.length
      if actual = declared then resolve s (done ++ chunk) rs
      else .error (.recoverable ("chunk " ++ Text.Hex.ofBytes digest ++ " is " ++ toString actual
        ++ " bytes, reference says " ++ toString declared) done.toList)

def rehydrate (s : ChunkStore) : Rehydrator := fun r =>
  let n := r.payload.length
  if n % referenceLength ≠ 0 then
    .error (.fatal ("malformed reference list of " ++ toString n ++ " bytes (file index "
      ++ toString r.fileIndex ++ ")"))
  else s.resolve #[] (Bytes.chunks referenceLength r.payload)

end ChunkStore
end BackupVolume
