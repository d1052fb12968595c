import BackupVolume.Bytes

/-! # The 64-bit hash of block headers

Four lanes take in stripes of 32 octets, eight octets a lane with the least significant octet
first. The lanes are merged, the octets after the last stripe are added, and the bits are mixed.
-/
namespace BackupVolume.Checksum.XxHash64

def prime1 : UInt64 := 0x9E3779B185EBCA87
def prime2 : UInt64 := 0xC2B2AE3D27D4EB4F
def prime3 : UInt64 := 0x165667B19E3779F9
def prime4 : UInt64 := 0x85EBCA77C2B2AE63
def prime5 : UInt64 := 0x27D4EB2F165667C5

def rotate (x n : UInt64) : UInt64 := x <<< n ||| x >>> (64 - n)

def word (bs : Bytes) : UInt64 := bs.foldr (fun b n => n <<< 8 ||| b.toUInt64) 0

def round (acc input : UInt64) : UInt64 := rotate (acc + input * prime2) 31 * prime1

structure Lanes where
  one : UInt64
  two : UInt64
  three : UInt64
  four : UInt64

def Lanes.start (seed : UInt64) : Lanes :=
  ⟨seed + prime1 + prime2, seed + prime2, seed, seed - prime1⟩

def Lanes.absorb (l : Lanes) (stripe : Bytes) : Lanes :=
  ⟨round l.one (word (stripe.take 8)), round l.two (word ((stripe.drop 8).take 8)),
    round l.three (word ((stripe.drop 16).take 8)), round l.four (word ((stripe.drop 24).take 8))⟩

def Lanes.absorbAll (l : Lanes) (bs : Bytes) : Lanes × Bytes :=
  if h : (bs.take 32).length = 32 then
    have : (bs.drop 32).length < bs.length := by simp at h ⊢; omega
    absorbAll (l.absorb (bs.take 32)) (bs.drop 32)
  else (l, bs)
termination_by bs.length

def mergeLane (acc lane : UInt64) : UInt64 := (acc ^^^ round 0 lane) * prime1 + prime4

def Lanes.merge (l : Lanes) : UInt64 :=
  let sum := rotate l.one 1 + rotate l.two 7 + rotate l.three 12 + rotate l.four 18
  mergeLane (mergeLane (mergeLane (mergeLane sum l.one) l.two) l.three) l.four

def octets (h : UInt64) (bs : Bytes) : UInt64 :=
  bs.foldl (fun h b => rotate (h ^^^ b.toUInt64 * prime5) 11 * prime1) h

def halfWord (h : UInt64) (bs : Bytes) : UInt64 :=
  if 4 ≤ bs.length then
    octets (rotate (h ^^^ word (bs.take 4) * prime1) 23 * prime2 + prime3) (bs.drop 4)
  else octets h bs

def tail (h : UInt64) (bs : Bytes) : UInt64 :=
  if 8 ≤ bs.length then
    tail (rotate (h ^^^ round 0 (word (bs.take 8))) 27 * prime1 + prime4) (bs.drop 8)
  else halfWord h bs
termination_by bs.length
decreasing_by simp; omega

def avalanche (h : UInt64) : UInt64 :=
  let h := (h ^^^ h >>> 33) * prime2
  let h := (h ^^^ h >>> 29) * prime3
  h ^^^ h >>> 32

def hash (seed : UInt64) (bs : Bytes) : UInt64 :=
  let absorbed := (Lanes.start seed).absorbAll bs
  let start := if (bs.take 32).length = 32 then absorbed.1.merge else seed + prime5
  avalanche (tail (start + bs.length.toUInt64) absorbed.2)

end BackupVolume.Checksum.XxHash64
