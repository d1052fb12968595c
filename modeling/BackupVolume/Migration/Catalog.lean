import BackupVolume.Attributes.Basic
import BackupVolume.IoFault
import BackupVolume.Json.Value
import BackupVolume.Text.Hex

/-! # Catalogs

A catalog learns of every file that is copied, with its attributes, and of every digest. Entries
are kept as lines of JSON, or not at all.
-/
namespace BackupVolume

inductive CatalogEntry where
  | file (session : Session) (fileIndex : Int32) (attributes : Attributes)
  | digest (session : Session) (fileIndex : Int32) (algorithm : String) (octets : Bytes)
  deriving DecidableEq

namespace Stat

def toJson (s : Stat) : Json.Value :=
  .object [("dev", .number s.dev.toNat), ("ino", .number s.ino.toNat),
    ("mode", .number s.mode.toNat), ("nlink", .number s.nlink.toNat), ("uid", .number s.uid.toNat),
    ("gid", .number s.gid.toNat), ("rdev", .number s.rdev.toNat), ("size", .number s.size.toInt),
    ("blksize", .number s.blksize.toInt), ("blocks", .number s.blocks.toInt),
    ("atime", .number s.atime.toInt), ("mtime", .number s.mtime.toInt),
    ("ctime", .number s.ctime.toInt), ("link_fi", .number s.linkIndex.toInt),
    ("flags", .number s.flags.toNat), ("data_stream", .number s.dataStream.toInt)]

end Stat

def Attributes.toJson (a : Attributes) : Json.Value :=
  .object [("file_index", .number a.fileIndex.toInt), ("file_type", .number a.typeCode.toInt),
    ("fname", .text a.name), ("stat", a.stat.toJson), ("link", .text a.link),
    ("attr_ex", .text a.extended), ("delta_seq", .number a.deltaSequence.toNat)]

namespace CatalogEntry

def ofRecord (r : Record) : Except AttributeError (Option CatalogEntry) :=
  if r.tag.isAttributes then
    (Attributes.decode r.payload).map fun a => some (.file r.session r.fileIndex a)
  else if r.tag.isDigest then .ok (some (.digest r.session r.fileIndex r.tag.name r.payload))
  else .ok none

def isFile : CatalogEntry → Bool
  | file .. => true
  | digest .. => false

def toJson (e : CatalogEntry) : Json.Value :=
  let head (kind : String) (s : Session) (fileIndex : Int32) : List (String × Json.Value) :=
    [("kind", .text kind), ("session_id", .number s.id.toNat),
      ("session_time", .number s.time.toNat), ("file_index", .number fileIndex.toInt)]
  match e with
  | .file s i a => .object (head "file" s i ++ [("attributes", a.toJson)])
  | .digest s i algorithm octets =>
    .object (head "digest" s i
      ++ [("algorithm", .text algorithm), ("digest", .text (Text.Hex.ofBytes octets))])

end CatalogEntry

class Catalog (γ : Type) where
  insert : γ → CatalogEntry → γ × Except IoFault Unit
  /-- Called once, after the last entry of a job that succeeded. -/
  commit : γ → γ × Except IoFault Unit

structure NoCatalog where

instance : Catalog NoCatalog where
  insert c _ := (c, .ok ())
  commit c := (c, .ok ())

structure LineCatalog where
  lines : Array String := #[]

namespace LineCatalog

def insert (c : LineCatalog) (e : CatalogEntry) : LineCatalog := ⟨c.lines.push e.toJson.render⟩

def text (c : LineCatalog) : String := String.join (c.lines.toList.map (· ++ "\n"))

instance : Catalog LineCatalog where
  insert c e := (c.insert e, .ok ())
  commit c := (c, .ok ())

end LineCatalog

instance Catalog.sum {α β : Type} [Catalog α] [Catalog β] : Catalog (α ⊕ β) where
  insert c e := match c with
    | .inl a => let (a, r) := Catalog.insert a e; (.inl a, r)
    | .inr b => let (b, r) := Catalog.insert b e; (.inr b, r)
  commit c := match c with
    | .inl a => let (a, r) := Catalog.commit a; (.inl a, r)
    | .inr b => let (b, r) := Catalog.commit b; (.inr b, r)

end BackupVolume
