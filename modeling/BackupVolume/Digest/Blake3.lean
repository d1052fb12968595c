import BackupVolume.Digest.Words

/-! # The digest that names chunks

The text is cut into chunks of 1024 octets, which are the leaves of a binary tree; the left part
of every inner node holds the largest power of two of chunks that leaves something for the right
part. A leaf chains its blocks of 64 octets, an inner node takes in the chaining values of its two
parts, and the digest is the first 32 octets of the root.
-/
namespace BackupVolume.Digest.Blake3

def initial : Array UInt32 :=
  #[0x6A09E667, 0xBB67AE85, 0x3C6EF372, 0xA54FF53A, 0x510E527F, 0x9B05688C, 0x1F83D9AB, 0x5BE0CD19]

def permutation : Array Nat := #[2, 6, 3, 10, 7, 0, 4, 13, 1, 11, 12, 5, 9, 14, 15, 8]

def chunkStart : UInt32 := 1
def chunkEnd : UInt32 := 2
def parent : UInt32 := 4
def root : UInt32 := 8

def rotate (w n : UInt32) : UInt32 := w >>> n ||| w <<< (32 - n)

def mix (v : Array UInt32) (a b c d : Nat) (x y : UInt32) : Array UInt32 :=
  let va := v.getD a 0 + v.getD b 0 + x
  let vd := rotate (v.getD d 0 ^^^ va) 16
  let vc := v.getD c 0 + vd
  let vb := rotate (v.getD b 0 ^^^ vc) 12
  let va := va + vb + y
  let vd := rotate (vd ^^^ va) 8
  let vc := vc + vd
  let vb := rotate (vb ^^^ vc) 7
  (((v.setIfInBounds a va).setIfInBounds b vb).setIfInBounds c vc).setIfInBounds d vd

def round (v m : Array UInt32) : Array UInt32 :=
  let v := mix v 0 4 8 12 (m.getD 0 0) (m.getD 1 0)
  let v := mix v 1 5 9 13 (m.getD 2 0) (m.getD 3 0)
  let v := mix v 2 6 10 14 (m.getD 4 0) (m.getD 5 0)
  let v := mix v 3 7 11 15 (m.getD 6 0) (m.getD 7 0)
  let v := mix v 0 5 10 15 (m.getD 8 0) (m.getD 9 0)
  let v := mix v 1 6 11 12 (m.getD 10 0) (m.getD 11 0)
  let v := mix v 2 7 8 13 (m.getD 12 0) (m.getD 13 0)
  mix v 3 4 9 14 (m.getD 14 0) (m.getD 15 0)

def permute (m : Array UInt32) : Array UInt32 := permutation.map fun i => m.getD i 0

def rounds : (n : Nat) → (v m : Array UInt32) → Array UInt32
  | 0, v, _ => v
  | n + 1, v, m => rounds n (round v m) (permute m)

structure Node where
  chaining : Array UInt32
  block : Array UInt32
  counter : Nat
  blockLength : Nat
  flags : UInt32

namespace Node

def output (n : Node) (flags : UInt32) : Array UInt32 :=
  let v := n.chaining ++ initial.extract 0 4
    ++ #[n.counter.toUInt32, (n.counter >>> 32).toUInt32, n.blockLength.toUInt32, n.flags ||| flags]
  let v := rounds 7 v n.block
  (Array.range 8).map fun i => v.getD i 0 ^^^ v.getD (i + 8) 0

end Node

def block (chaining : Array UInt32) (counter : Nat) (flags : UInt32) (bs : Bytes) : Node :=
  ⟨chaining, words32 16 bs, counter, bs.length, flags⟩

/-- The last node of a chunk whose blocks still to come are `blocks`. -/
def chain (counter : Nat) : (chaining : Array UInt32) → (flags : UInt32) → List Bytes → Node
  | chaining, flags, [] => block chaining counter (flags ||| chunkEnd) []
  | chaining, flags, [b] => block chaining counter (flags ||| chunkEnd) b
  | chaining, flags, b :: bs => chain counter ((block chaining counter flags b).output 0) 0 bs

def chunkLength : Nat := 1024

/-- The length of the left part of a text longer than a chunk. -/
def leftLength (n : Nat) : Nat := chunkLength <<< ((n - 1) / chunkLength).log2

theorem leftLength_pos (n : Nat) : 0 < leftLength n := by
  rw [leftLength, Nat.shiftLeft_eq]
  exact Nat.mul_pos (by decide) (Nat.pow_pos (by decide))

theorem leftLength_lt {n : Nat} (h : chunkLength < n) : leftLength n < n := by
  have chunks : (n - 1) / chunkLength ≠ 0 := by
    simp only [chunkLength] at h ⊢
    omega
  have := Nat.log2_self_le chunks
  have := Nat.mul_le_mul_left chunkLength this
  have := Nat.mul_div_le (n - 1) chunkLength
  rw [leftLength, Nat.shiftLeft_eq]
  omega

def node (counter : Nat) (bs : Bytes) : Node :=
  if _long : chunkLength < bs.length then
    let n := leftLength bs.length
    let left := node counter (bs.take n)
    let right := node (counter + n / chunkLength) (bs.drop n)
    ⟨initial, left.output 0 ++ right.output 0, 0, 64, parent⟩
  else chain counter initial chunkStart (Bytes.chunks 64 bs)
termination_by bs.length
decreasing_by
  · rw [List.length_take]
    have := leftLength_lt _long
    omega
  · rw [List.length_drop]
    have := leftLength_pos bs.length
    omega

def hash (bs : Bytes) : Bytes := bytes32 ((node 0 bs).output root).toList

end BackupVolume.Digest.Blake3
