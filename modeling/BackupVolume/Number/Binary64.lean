/-! # Binary numbers of 64 bits

A number is rounded to 53 significant binary digits, a half to the even neighbour. Its shortest
text has the fewest decimal digits that are rounded to the same number, and among those the ones
nearest to it.
-/
namespace BackupVolume.Number

/-- A quotient rounded to the nearest integer, a half to the even one. -/
def roundQuotient (a b : Nat) : Nat :=
  let q := a / b
  let r := 2 * (a % b)
  if r < b then q else if b < r then q + 1 else if q % 2 = 0 then q else q + 1

def scale (base : Nat) (a b : Nat) (e : Int) : Nat × Nat :=
  if 0 ≤ e then (a * base.pow e.toNat, b) else (a, b * base.pow (-e).toNat)

structure Binary64 where
  mantissa : Nat
  exponent : Int
  deriving DecidableEq

namespace Binary64

def leastExponent : Int := -1074

/-- The exponent of the nearest number to `a / b` or one less. -/
def exponentNear (a b : Nat) : Int := max leastExponent ((a.log2 : Int) - b.log2 - 53)

def nearest (a b : Nat) : Binary64 :=
  if a = 0 then ⟨0, 0⟩
  else
    let e := exponentNear a b
    let (x, y) := scale 2 a b (-e)
    let e := if x / y < 1 <<< 53 then e else e + 1
    let (x, y) := scale 2 a b (-e)
    ⟨roundQuotient x y, e⟩

def isInfinite (v : Binary64) : Bool := 1024 < v.exponent + (v.mantissa.log2 : Int) + 1

def quotient (v : Binary64) : Nat × Nat := scale 2 v.mantissa 1 v.exponent

def roundScaled (v : Binary64) (e : Int) : Nat :=
  let (a, b) := v.quotient
  let (x, y) := scale 10 a b e
  roundQuotient x y

def isRoundedFrom (v : Binary64) (d : Nat) (e : Int) : Bool :=
  let (a, b) := scale 10 d 1 e
  let w := nearest a b
  w.quotient.1 * v.quotient.2 == v.quotient.1 * w.quotient.2

/-- The position of the first decimal digit: `10 ^ e` is at most the number. -/
def decimalExponent (v : Binary64) : (fuel : Nat) → (e : Int) → Int
  | 0, e => e
  | fuel + 1, e =>
    let (a, b) := v.quotient
    let (x, y) := scale 10 1 1 e
    if x * b ≤ a * y then e else decimalExponent v fuel (e - 1)

/-- The shortest digits `d` with an exponent `e`, such that `d * 10 ^ e` is rounded to the number;
at most `n` more places are tried. -/
def shortestFrom (v : Binary64) (first : Int) : (n : Nat) → (places : Nat) → Nat × Int
  | 0, places => (v.roundScaled (places - 1 - first), first + 1 - places)
  | n + 1, places =>
    let e := first + 1 - places
    let d := v.roundScaled (-e)
    if v.isRoundedFrom d e then (d, e) else shortestFrom v first n (places + 1)

def withoutZeros : (fuel : Nat) → Nat × Int → Nat × Int
  | 0, r => r
  | fuel + 1, (d, e) => if d ≠ 0 && d % 10 = 0 then withoutZeros fuel (d / 10, e + 1) else (d, e)

def shortest (v : Binary64) : Nat × Int :=
  if v.mantissa = 0 then (0, 0)
  else withoutZeros 400 (shortestFrom v (decimalExponent v 700 330) 16 1)

/-- The text of `d * 10 ^ e`: positional where the point falls within sixteen digits or the number
starts with at most five zeros, else with an exponent. -/
def layout (d : Nat) (e : Int) : String :=
  let digits := Nat.toDigits 10 d
  let n := digits.length
  let point := n + e
  let zeros (k : Nat) : List Char := List.replicate k '0'
  String.ofList <|
    if 0 ≤ e && point ≤ 16 then digits ++ (zeros e.toNat ++ ['.', '0'])
    else if 0 < point && point ≤ 16 then
      digits.take point.toNat ++ ('.' :: digits.drop point.toNat)
    else if -5 < point && point ≤ 0 then ['0', '.'] ++ (zeros (-point).toNat ++ digits)
    else
      let exponent := 'e' :: (toString (point - 1)).toList
      if n = 1 then digits ++ exponent else digits.take 1 ++ ('.' :: (digits.drop 1 ++ exponent))

def text (v : Binary64) : String :=
  let (d, e) := v.shortest
  layout d e

end Binary64
end BackupVolume.Number
