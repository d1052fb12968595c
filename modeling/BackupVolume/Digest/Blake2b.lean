import BackupVolume.Digest.Words

/-! # The digest of key derivation

Blocks of 128 octets are mixed into eight words in twelve rounds each. The length of the digest is
part of the first word, so that shorter digests are not parts of longer ones.
-/
namespace BackupVolume.Digest.Blake2b

def initial : Array UInt64 :=
  #[0x6A09E667F3BCC908, 0xBB67AE8584CAA73B, 0x3C6EF372FE94F82B, 0xA54FF53A5F1D36F1,
    0x510E527FADE682D1, 0x9B05688C2B3E6C1F, 0x1F83D9ABFB41BD6B, 0x5BE0CD19137E2179]

/-- The order in which the rounds take the words of a block. -/
def orders : List (Array Nat) :=
  [#[0, 1, 2, 3, 4, 5, 6, 7, 8, 9, 10, 11, 12, 13, 14, 15],
    #[14, 10, 4, 8, 9, 15, 13, 6, 1, 12, 0, 2, 11, 7, 5, 3],
    #[11, 8, 12, 0, 5, 2, 15, 13, 10, 14, 3, 6, 7, 1, 9, 4],
    #[7, 9, 3, 1, 13, 12, 11, 14, 2, 6, 5, 10, 4, 0, 15, 8],
    #[9, 0, 5, 7, 2, 4, 10, 15, 14, 1, 11, 12, 6, 8, 3, 13],
    #[2, 12, 6, 10, 0, 11, 8, 3, 4, 13, 7, 5, 15, 14, 1, 9],
    #[12, 5, 1, 15, 14, 13, 4, 10, 0, 7, 6, 3, 9, 2, 8, 11],
    #[13, 11, 7, 14, 12, 1, 3, 9, 5, 0, 15, 4, 8, 6, 2, 10],
    #[6, 15, 14, 9, 11, 3, 0, 8, 12, 2, 13, 7, 1, 4, 10, 5],
    #[10, 2, 8, 4, 7, 6, 1, 5, 15, 11, 9, 14, 3, 12, 13, 0],
    #[0, 1, 2, 3, 4, 5, 6, 7, 8, 9, 10, 11, 12, 13, 14, 15],
    #[14, 10, 4, 8, 9, 15, 13, 6, 1, 12, 0, 2, 11, 7, 5, 3]]

def rotate (w n : UInt64) : UInt64 := w >>> n ||| w <<< (64 - n)

def mix (v : Array UInt64) (a b c d : Nat) (x y : UInt64) : Array UInt64 :=
  let va := v.getD a 0 + v.getD b 0 + x
  let vd := rotate (v.getD d 0 ^^^ va) 32
  let vc := v.getD c 0 + vd
  let vb := rotate (v.getD b 0 ^^^ vc) 24
  let va := va + vb + y
  let vd := rotate (vd ^^^ va) 16
  let vc := vc + vd
  let vb := rotate (vb ^^^ vc) 63
  (((v.setIfInBounds a va).setIfInBounds b vb).setIfInBounds c vc).setIfInBounds d vd

def round (m v : Array UInt64) (order : Array Nat) : Array UInt64 :=
  let word (i : Nat) : UInt64 := m.getD (order.getD i 0) 0
  let v := mix v 0 4 8 12 (word 0) (word 1)
  let v := mix v 1 5 9 13 (word 2) (word 3)
  let v := mix v 2 6 10 14 (word 4) (word 5)
  let v := mix v 3 7 11 15 (word 6) (word 7)
  let v := mix v 0 5 10 15 (word 8) (word 9)
  let v := mix v 1 6 11 12 (word 10) (word 11)
  let v := mix v 2 7 8 13 (word 12) (word 13)
  mix v 3 4 9 14 (word 14) (word 15)

/-- Takes in a block; `count` octets have been taken in with it. -/
def compress (h : Array UInt64) (block : Bytes) (count : Nat) (isLast : Bool) : Array UInt64 :=
  let flip := if isLast then 0xFFFFFFFFFFFFFFFF else 0
  let v := h ++ initial.mapIdx fun i w =>
    if i = 4 then w ^^^ count.toUInt64 else if i = 6 then w ^^^ flip else w
  let v := orders.foldl (round (words64 16 block)) v
  h.mapIdx fun i w => w ^^^ v.getD i 0 ^^^ v.getD (i + 8) 0

def absorb (h : Array UInt64) (count : Nat) : List Bytes → Array UInt64
  | [] => compress h [] count true
  | [b] => compress h b (count + b.length) true
  | b :: bs => absorb (compress h b (count + b.length) false) (count + b.length) bs

def hash (length : Nat) (bs : Bytes) : Bytes :=
  let start := initial.mapIdx fun i w =>
    if i = 0 then w ^^^ 0x01010000 ^^^ length.toUInt64 else w
  (bytes64 (absorb start 0 (Bytes.chunks 128 bs)).toList).take length

theorem size_absorb {h : Array UInt64} {count : Nat} {bs : List Bytes} :
    (absorb h count bs).size = h.size := by
  fun_induction absorb h count bs with
  | case1 => simp [compress]
  | case2 => simp [compress]
  | case3 h count b bs _ ih => simpa [compress] using ih

theorem length_hash {length : Nat} (h : length ≤ 64) (bs : Bytes) :
    (hash length bs).length = length := by
  have hwords : (absorb (initial.mapIdx fun i w =>
      if i = 0 then w ^^^ 0x01010000 ^^^ length.toUInt64 else w) 0 (Bytes.chunks 128 bs)).size = 8 := by
    rw [size_absorb, Array.size_mapIdx]
    rfl
  rw [hash, List.length_take, length_bytes64, Array.length_toList, hwords]
  omega

end BackupVolume.Digest.Blake2b
