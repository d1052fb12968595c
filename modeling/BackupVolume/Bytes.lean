/-! # Byte strings and the integers stored in them

A byte string is a list of octets. Integers are stored with a fixed number of octets, the most
significant one first. Writing keeps the low octets of a number; reading back what was written
returns the number reduced to that width.
-/
namespace BackupVolume

abbrev Bytes := List UInt8

namespace Bytes

def bound (width : Nat) : Nat := Nat.pow 256 width

theorem bound_zero : bound 0 = 1 := rfl

theorem bound_succ (w : Nat) : bound (w + 1) = bound w * 256 := rfl

/-- The low `width` octets of `n`, most significant first. -/
def ofNat : (width n : Nat) → Bytes
  | 0, _ => []
  | w + 1, n => (n / bound w).toUInt8 :: ofNat w n

def toNat (bs : Bytes) : Nat := bs.foldl (fun n b => 256 * n + b.toNat) 0

@[simp] theorem length_ofNat (w n : Nat) : (ofNat w n).length = w := by
  induction w with
  | zero => rfl
  | succ w ih => simp [ofNat, ih]

theorem foldl_toNat (bs : Bytes) (n : Nat) :
    bs.foldl (fun n b => 256 * n + b.toNat) n = bound bs.length * n + toNat bs := by
  induction bs generalizing n with
  | nil => simp [toNat, bound_zero]
  | cons b bs ih =>
    simp only [toNat, List.foldl_cons, List.length_cons]
    rw [ih, ih (256 * 0 + b.toNat), bound_succ]
    simp only [Nat.mul_add, Nat.mul_zero, Nat.zero_add, Nat.mul_assoc, Nat.add_assoc]

@[simp] theorem toNat_nil : toNat [] = 0 := rfl

theorem toNat_cons (b : UInt8) (bs : Bytes) :
    toNat (b :: bs) = bound bs.length * b.toNat + toNat bs := by
  rw [toNat, List.foldl_cons, foldl_toNat, Nat.mul_zero, Nat.zero_add]

/-- Reading back a written number reduces it to the width it was written with. -/
theorem toNat_ofNat (w n : Nat) : toNat (ofNat w n) = n % bound w := by
  induction w with
  | zero => simp [ofNat, bound_zero, Nat.mod_one]
  | succ w ih =>
    rw [ofNat, toNat_cons, ih, length_ofNat, bound_succ, Nat.mod_mul, Nat.toUInt8,
      UInt8.toNat_ofNat', Nat.add_comm]

theorem toNat_ofNat_of_lt {w n : Nat} (h : n < bound w) : toNat (ofNat w n) = n := by
  rw [toNat_ofNat, Nat.mod_eq_of_lt h]

theorem bound_pos (w : Nat) : 0 < bound w := Nat.pow_pos (by decide)

theorem toNat_lt (bs : Bytes) : toNat bs < bound bs.length := by
  induction bs with
  | nil => simp [bound_zero]
  | cons b bs ih =>
    have hb := UInt8.toNat_lt b
    rw [toNat_cons, List.length_cons, bound_succ]
    calc bound bs.length * b.toNat + toNat bs
        < bound bs.length * b.toNat + bound bs.length := Nat.add_lt_add_left ih _
      _ = bound bs.length * (b.toNat + 1) := (Nat.mul_succ ..).symm
      _ ≤ bound bs.length * 256 := Nat.mul_le_mul_left _ hb

/-- Only the low octets of a number are written. -/
theorem ofNat_mod (w n : Nat) : ofNat w (n % bound w) = ofNat w n := by
  induction w generalizing n with
  | zero => rfl
  | succ w ih =>
    have hlow : n % bound (w + 1) % bound w = n % bound w := by
      rw [bound_succ, Nat.mod_mul_right_mod]
    have hhigh : (n % bound (w + 1) / bound w).toUInt8 = (n / bound w).toUInt8 := by
      rw [bound_succ, Nat.mod_mul_right_div_self]
      apply UInt8.toNat_inj.mp
      simp [Nat.toUInt8]
    rw [ofNat, ofNat, hhigh, ← ih (n % _), hlow, ih]

/-- Writing a number that was read gives its octets back. -/
theorem ofNat_toNat (bs : Bytes) : ofNat bs.length (toNat bs) = bs := by
  induction bs with
  | nil => rfl
  | cons b bs ih =>
    have hlt := toNat_lt bs
    have hlow : (bound bs.length * b.toNat + toNat bs) % bound bs.length = toNat bs := by
      rw [Nat.mul_add_mod, Nat.mod_eq_of_lt hlt]
    have hhigh : (bound bs.length * b.toNat + toNat bs) / bound bs.length = b.toNat := by
      rw [Nat.mul_add_div (bound_pos _), Nat.div_eq_of_lt hlt, Nat.add_zero]
    rw [List.length_cons, ofNat, toNat_cons, hhigh, ← ofNat_mod bs.length, hlow, ih]
    simp [Nat.toUInt8]

def ofUInt16 (x : UInt16) : Bytes := ofNat 2 x.toNat
def ofUInt32 (x : UInt32) : Bytes := ofNat 4 x.toNat
def ofUInt64 (x : UInt64) : Bytes := ofNat 8 x.toNat
def ofInt32 (x : Int32) : Bytes := ofUInt32 x.toUInt32

def toUInt16 (bs : Bytes) : UInt16 := (toNat bs).toUInt16
def toUInt32 (bs : Bytes) : UInt32 := (toNat bs).toUInt32
def toUInt64 (bs : Bytes) : UInt64 := (toNat bs).toUInt64
def toInt32 (bs : Bytes) : Int32 := (toUInt32 bs).toInt32

@[simp] theorem length_ofUInt16 (x : UInt16) : (ofUInt16 x).length = 2 := length_ofNat ..
@[simp] theorem length_ofUInt32 (x : UInt32) : (ofUInt32 x).length = 4 := length_ofNat ..
@[simp] theorem length_ofUInt64 (x : UInt64) : (ofUInt64 x).length = 8 := length_ofNat ..
@[simp] theorem length_ofInt32 (x : Int32) : (ofInt32 x).length = 4 := length_ofUInt32 _

@[simp] theorem toUInt16_ofUInt16 (x : UInt16) : toUInt16 (ofUInt16 x) = x := by
  rw [toUInt16, ofUInt16, toNat_ofNat_of_lt x.toNat_lt]; simp

@[simp] theorem toUInt32_ofUInt32 (x : UInt32) : toUInt32 (ofUInt32 x) = x := by
  rw [toUInt32, ofUInt32, toNat_ofNat_of_lt x.toNat_lt]; simp

@[simp] theorem toUInt64_ofUInt64 (x : UInt64) : toUInt64 (ofUInt64 x) = x := by
  rw [toUInt64, ofUInt64, toNat_ofNat_of_lt x.toNat_lt]; simp

@[simp] theorem toInt32_ofInt32 (x : Int32) : toInt32 (ofInt32 x) = x := by
  simp [toInt32, ofInt32]

theorem ofUInt16_toUInt16 {bs : Bytes} (h : bs.length = 2) : ofUInt16 (toUInt16 bs) = bs := by
  have hlt := toNat_lt bs
  rw [h] at hlt
  have hread : (toNat bs).toUInt16.toNat = toNat bs := by
    rw [Nat.toUInt16, UInt16.toNat_ofNat']
    exact Nat.mod_eq_of_lt hlt
  rw [ofUInt16, toUInt16, hread, ← h, ofNat_toNat]

theorem ofUInt32_toUInt32 {bs : Bytes} (h : bs.length = 4) : ofUInt32 (toUInt32 bs) = bs := by
  have hlt := toNat_lt bs
  rw [h] at hlt
  have hread : (toNat bs).toUInt32.toNat = toNat bs := by
    rw [Nat.toUInt32, UInt32.toNat_ofNat']
    exact Nat.mod_eq_of_lt hlt
  rw [ofUInt32, toUInt32, hread, ← h, ofNat_toNat]

theorem ofUInt64_toUInt64 {bs : Bytes} (h : bs.length = 8) : ofUInt64 (toUInt64 bs) = bs := by
  have hlt := toNat_lt bs
  rw [h] at hlt
  have hread : (toNat bs).toUInt64.toNat = toNat bs := by
    rw [Nat.toUInt64, UInt64.toNat_ofNat']
    exact Nat.mod_eq_of_lt hlt
  rw [ofUInt64, toUInt64, hread, ← h, ofNat_toNat]

def slice (bs : Bytes) (i n : Nat) : Bytes := (bs.drop i).take n

theorem length_slice {bs : Bytes} {i n : Nat} (h : i + n ≤ bs.length) :
    (bs.slice i n).length = n := by
  rw [slice, List.length_take, List.length_drop]
  omega

theorem take_append_slice (bs : Bytes) (i n : Nat) : bs.take i ++ bs.slice i n = bs.take (i + n) :=
  List.take_add.symm

theorem slice_append_slice (bs : Bytes) (i m n : Nat) :
    bs.slice i m ++ bs.slice (i + m) n = bs.slice i (m + n) := by
  rw [slice, slice, slice, List.take_add, List.drop_drop]

theorem slice_slice (bs : Bytes) (i : Nat) {j m n : Nat} (h : j + m ≤ n) :
    (bs.slice i n).slice j m = bs.slice (i + j) m := by
  rw [slice, slice, slice, List.drop_take, List.take_take, List.drop_drop,
    Nat.min_eq_left (by omega)]

theorem slice_append_left {as : Bytes} {i n : Nat} (h : i + n ≤ as.length) (bs : Bytes) :
    (as ++ bs).slice i n = as.slice i n := by
  rw [slice, slice, List.drop_append_of_le_length (by omega),
    List.take_append_of_le_length (by rw [List.length_drop]; omega)]

def ofArray (a : ByteArray) : Bytes := a.data.toList

/-- Pieces of `size` octets, the last one possibly shorter; a size of zero counts as one. -/
def chunks (size : Nat) (bs : Bytes) : List Bytes :=
  if bs.isEmpty then [] else bs.take (max size 1) :: chunks size (bs.drop (max size 1))
termination_by bs.length
decreasing_by
  cases bs with
  | nil => simp_all
  | cons b bs => simp only [List.length_drop, List.length_cons]; omega

end Bytes
end BackupVolume
