import BackupVolume.Bytes

/-! # Words of digests

Digests work on words that are stored with the least significant octet first.
-/
namespace BackupVolume.Digest

/-- The low `width` octets of a number, least significant first. -/
def littleEndian (width n : Nat) : Bytes := (Bytes.ofNat width n).reverse

def littleEndianValue (bs : Bytes) : Nat := Bytes.toNat bs.reverse

/-- The words of a block, with zeros for octets that are missing. -/
def words32 (count : Nat) (bs : Bytes) : Array UInt32 :=
  (Array.range count).map fun i => (littleEndianValue (bs.slice (4 * i) 4)).toUInt32

def words64 (count : Nat) (bs : Bytes) : Array UInt64 :=
  (Array.range count).map fun i => (littleEndianValue (bs.slice (8 * i) 8)).toUInt64

def bytes32 (ws : List UInt32) : Bytes := ws.flatMap fun w => littleEndian 4 w.toNat

def bytes64 (ws : List UInt64) : Bytes := ws.flatMap fun w => littleEndian 8 w.toNat

theorem length_bytes64 (ws : List UInt64) : (bytes64 ws).length = 8 * ws.length := by
  induction ws with
  | nil => rfl
  | cons w ws ih =>
    rw [bytes64, List.flatMap_cons, List.length_append, ← bytes64, ih, littleEndian,
      List.length_reverse, Bytes.length_ofNat, List.length_cons]
    omega

end BackupVolume.Digest
