import BackupVolume.Attributes.Basic
import BackupVolume.Failure

/-! # What records ask for

A decoded record describes a file, holds octets for one, or asks for nothing. A payload may start
with the address of its octets in the file.
-/
namespace BackupVolume

structure RecordFault where
  fileIndex : Int32
  tag : StreamTag
  blockNumber : UInt32
  error : Failure
  deriving DecidableEq

inductive Action where
  | attributes (a : Attributes)
  /-- Octets for an address in the open file, or to follow those before. -/
  | write (address : Option Nat) (data : Bytes)
  | nothing
  | fault (f : RecordFault)
  deriving DecidableEq

def addressLength : Nat := 8

def withAddress (address : Nat) (data : Bytes) : Bytes := Bytes.ofNat addressLength address ++ data

namespace Record

/-- The address in a payload, where the tag announces one, and the octets behind it. -/
def splitAddress (r : Record) : Except Failure (Option Nat × Bytes) :=
  if !r.tag.hasOffsets then .ok (none, r.payload)
  else
    let n := r.payload.length
    if n < addressLength then .error (.shortPayload r.tag n)
    else .ok (some (Bytes.toNat (r.payload.take addressLength)), r.payload.drop addressLength)

/-- An address in front of a payload is found again. -/
theorem splitAddress_withAddress {r : Record} {address : Nat} {data : Bytes}
    (announced : r.tag.hasOffsets = true) (fits : address < Bytes.bound addressLength)
    (payload : r.payload = withAddress address data) :
    r.splitAddress = .ok (some address, data) := by
  have first : (withAddress address data).take addressLength = Bytes.ofNat addressLength address :=
    List.take_left' (Bytes.length_ofNat ..)
  have rest : (withAddress address data).drop addressLength = data :=
    List.drop_left' (Bytes.length_ofNat ..)
  have long : ¬ (withAddress address data).length < addressLength := by
    rw [withAddress, List.length_append, Bytes.length_ofNat]
    omega
  simp only [splitAddress, announced, payload, Bool.not_true, Bool.false_eq_true, if_false, long,
    first, rest]
  rw [Bytes.toNat_ofNat_of_lt fits]

end Record
end BackupVolume
