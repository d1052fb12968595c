import BackupVolume.Stream.Kind
import BackupVolume.Text.Hex

/-! # Stream tags

The tag of a record is a signed number. The low eleven bits of its size name the kind of the
stream, the bits above are modifiers, and a negative tag marks a later piece of a record that was
split: it is the negated tag of the first piece.
-/
namespace BackupVolume

structure StreamTag where
  raw : Int32
  deriving DecidableEq

namespace StreamTag

/-- The payload starts with the address of its data in the file. -/
def offsetsBit : Int32 := 0x2000

/-- The payload is a list of references to stored chunks. -/
def dedupBit : Int32 := 0x8000

def ofKind (k : StreamKind) : StreamTag := ⟨Int32.ofNat k.code⟩

def withOffsets (t : StreamTag) : StreamTag := ⟨t.raw ||| offsetsBit⟩

def withDedup (t : StreamTag) : StreamTag := ⟨t.raw ||| dedupBit⟩

def withoutDedup (t : StreamTag) : StreamTag := ⟨t.raw &&& ~~~dedupBit⟩

/-- The number of the kind, without modifiers and without the mark of a later piece. -/
def masked (t : StreamTag) : Nat := t.raw.toInt.natAbs % 2048

def kind? (t : StreamTag) : Option StreamKind := StreamKind.ofCode? t.masked

/-- Asks a question about the kind; a tag without a known kind answers no. -/
def hasKind (t : StreamTag) (q : StreamKind → Bool) : Bool := t.kind?.any q

def isDedup (t : StreamTag) : Bool := 0 < t.raw && t.raw &&& dedupBit != 0

def hasOffsets (t : StreamTag) : Bool :=
  t.raw &&& offsetsBit != 0 || t.hasKind StreamKind.isSparse

def isContinuation (t : StreamTag) : Bool := t.raw < 0

def continuation (t : StreamTag) : StreamTag := ⟨-t.raw.abs⟩

def isAttributes (t : StreamTag) : Bool := t.hasKind StreamKind.isAttributes
def isDigest (t : StreamTag) : Bool := t.hasKind StreamKind.isDigest
def isFileData (t : StreamTag) : Bool := t.hasKind StreamKind.isFileData
def isOpaqueFileData (t : StreamTag) : Bool := t.hasKind StreamKind.isOpaqueFileData

def name (t : StreamTag) : String :=
  (if t.isContinuation then "contSTREAM-" else "")
    ++ (match t.kind? with
      | some k => k.name
      | none => toString t.masked)
    ++ (if 0 < t.raw && t.raw &&& offsetsBit != 0 then "+OFFSETS" else "")
    ++ (if t.isDedup then "+DEDUP" else "")

def describe (t : StreamTag) : String :=
  "StreamTag(" ++ t.name ++ "=0x" ++ Text.Hex.ofNat t.raw.toUInt32.toNat ++ ")"

end StreamTag
end BackupVolume
