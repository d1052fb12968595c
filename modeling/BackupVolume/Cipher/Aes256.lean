import BackupVolume.Bytes

/-! # AES with keys of 256 bits

A block of sixteen octets is four words, one for each column of the state, its first octet at the
high end. A round substitutes the octets, shifts the rows, mixes the columns and adds the words of
the round key; the last of the fourteen rounds does not mix.
-/
namespace BackupVolume.Cipher.Aes256

def substitutions : Array UInt8 :=
  #[
    0x63, 0x7C, 0x77, 0x7B, 0xF2, 0x6B, 0x6F, 0xC5, 0x30, 0x01, 0x67, 0x2B, 0xFE, 0xD7, 0xAB, 0x76,
    0xCA, 0x82, 0xC9, 0x7D, 0xFA, 0x59, 0x47, 0xF0, 0xAD, 0xD4, 0xA2, 0xAF, 0x9C, 0xA4, 0x72, 0xC0,
    0xB7, 0xFD, 0x93, 0x26, 0x36, 0x3F, 0xF7, 0xCC, 0x34, 0xA5, 0xE5, 0xF1, 0x71, 0xD8, 0x31, 0x15,
    0x04, 0xC7, 0x23, 0xC3, 0x18, 0x96, 0x05, 0x9A, 0x07, 0x12, 0x80, 0xE2, 0xEB, 0x27, 0xB2, 0x75,
    0x09, 0x83, 0x2C, 0x1A, 0x1B, 0x6E, 0x5A, 0xA0, 0x52, 0x3B, 0xD6, 0xB3, 0x29, 0xE3, 0x2F, 0x84,
    0x53, 0xD1, 0x00, 0xED, 0x20, 0xFC, 0xB1, 0x5B, 0x6A, 0xCB, 0xBE, 0x39, 0x4A, 0x4C, 0x58, 0xCF,
    0xD0, 0xEF, 0xAA, 0xFB, 0x43, 0x4D, 0x33, 0x85, 0x45, 0xF9, 0x02, 0x7F, 0x50, 0x3C, 0x9F, 0xA8,
    0x51, 0xA3, 0x40, 0x8F, 0x92, 0x9D, 0x38, 0xF5, 0xBC, 0xB6, 0xDA, 0x21, 0x10, 0xFF, 0xF3, 0xD2,
    0xCD, 0x0C, 0x13, 0xEC, 0x5F, 0x97, 0x44, 0x17, 0xC4, 0xA7, 0x7E, 0x3D, 0x64, 0x5D, 0x19, 0x73,
    0x60, 0x81, 0x4F, 0xDC, 0x22, 0x2A, 0x90, 0x88, 0x46, 0xEE, 0xB8, 0x14, 0xDE, 0x5E, 0x0B, 0xDB,
    0xE0, 0x32, 0x3A, 0x0A, 0x49, 0x06, 0x24, 0x5C, 0xC2, 0xD3, 0xAC, 0x62, 0x91, 0x95, 0xE4, 0x79,
    0xE7, 0xC8, 0x37, 0x6D, 0x8D, 0xD5, 0x4E, 0xA9, 0x6C, 0x56, 0xF4, 0xEA, 0x65, 0x7A, 0xAE, 0x08,
    0xBA, 0x78, 0x25, 0x2E, 0x1C, 0xA6, 0xB4, 0xC6, 0xE8, 0xDD, 0x74, 0x1F, 0x4B, 0xBD, 0x8B, 0x8A,
    0x70, 0x3E, 0xB5, 0x66, 0x48, 0x03, 0xF6, 0x0E, 0x61, 0x35, 0x57, 0xB9, 0x86, 0xC1, 0x1D, 0x9E,
    0xE1, 0xF8, 0x98, 0x11, 0x69, 0xD9, 0x8E, 0x94, 0x9B, 0x1E, 0x87, 0xE9, 0xCE, 0x55, 0x28, 0xDF,
    0x8C, 0xA1, 0x89, 0x0D, 0xBF, 0xE6, 0x42, 0x68, 0x41, 0x99, 0x2D, 0x0F, 0xB0, 0x54, 0xBB, 0x16]

def substitute (b : UInt8) : UInt8 := substitutions.getD b.toNat 0

def word (a b c d : UInt8) : UInt32 :=
  a.toUInt32 <<< 24 ||| b.toUInt32 <<< 16 ||| c.toUInt32 <<< 8 ||| d.toUInt32

def octet (w : UInt32) (row : UInt32) : UInt8 := (w >>> (24 - 8 * row)).toUInt8

def rotate (w n : UInt32) : UInt32 := w <<< n ||| w >>> (32 - n)

def substituteWord (w : UInt32) : UInt32 :=
  word (substitute (octet w 0)) (substitute (octet w 1)) (substitute (octet w 2))
    (substitute (octet w 3))

structure Columns where
  one : UInt32
  two : UInt32
  three : UInt32
  four : UInt32
  deriving DecidableEq

namespace Columns

def xor (x y : Columns) : Columns :=
  ⟨x.one ^^^ y.one, x.two ^^^ y.two, x.three ^^^ y.three, x.four ^^^ y.four⟩

def ofBytes (bs : Bytes) : Columns :=
  ⟨Bytes.toUInt32 (bs.take 4), Bytes.toUInt32 (bs.slice 4 4), Bytes.toUInt32 (bs.slice 8 4),
    Bytes.toUInt32 (bs.slice 12 4)⟩

def toBytes (x : Columns) : Bytes :=
  Bytes.ofUInt32 x.one ++ (Bytes.ofUInt32 x.two
    ++ (Bytes.ofUInt32 x.three ++ Bytes.ofUInt32 x.four))

@[simp] theorem length_toBytes (x : Columns) : x.toBytes.length = 16 := by simp [toBytes]

end Columns

/-- One column after substitution and row shift: each row comes from the next column. -/
def gather (a b c d : UInt32) : UInt32 :=
  word (substitute (octet a 0)) (substitute (octet b 1)) (substitute (octet c 2))
    (substitute (octet d 3))

def shiftRows (x : Columns) : Columns :=
  ⟨gather x.one x.two x.three x.four, gather x.two x.three x.four x.one,
    gather x.three x.four x.one x.two, gather x.four x.one x.two x.three⟩

/-- Doubles the four octets of a word in the field of 256 elements. -/
def double (w : UInt32) : UInt32 :=
  (w &&& 0x7F7F7F7F) <<< 1 ^^^ ((w >>> 7) &&& 0x01010101) * 0x1B

def mixColumn (w : UInt32) : UInt32 :=
  double w ^^^ rotate (double w ^^^ w) 8 ^^^ rotate w 16 ^^^ rotate w 24

def mixColumns (x : Columns) : Columns :=
  ⟨mixColumn x.one, mixColumn x.two, mixColumn x.three, mixColumn x.four⟩

structure Key where
  first : Columns
  middle : List Columns
  last : Columns

/-- The next four words of the key schedule after eight words, and the constant of the next step.
Every second group of four is rotated and gets a constant. -/
def nextKeys (older newer : Columns) (constant : UInt32) : Columns :=
  let mixed :=
    if constant = 0 then substituteWord newer.four
    else substituteWord (rotate newer.four 8) ^^^ constant <<< 24
  let one := older.one ^^^ mixed
  let two := older.two ^^^ one
  let three := older.three ^^^ two
  ⟨one, two, three, older.four ^^^ three⟩

def schedule (older newer : Columns) : List UInt32 → List Columns
  | [] => []
  | c :: cs =>
    let next := nextKeys older newer c
    next :: schedule newer next cs

/-- The constants of the key schedule; zero stands for a step without one. -/
def constants : List UInt32 := [1, 0, 2, 0, 4, 0, 8, 0, 16, 0, 32, 0, 64]

def Key.ofBytes (bs : Bytes) : Key :=
  let one := Columns.ofBytes (bs.take 16)
  let two := Columns.ofBytes (bs.drop 16)
  let rest := two :: schedule one two constants
  ⟨one, rest.dropLast, rest.getLastD one⟩

def encryptBlock (k : Key) (x : Columns) : Columns :=
  let mixed := k.middle.foldl (fun x r => (mixColumns (shiftRows x)).xor r) (x.xor k.first)
  (shiftRows mixed).xor k.last

end BackupVolume.Cipher.Aes256
