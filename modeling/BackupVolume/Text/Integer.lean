/-! # Integers in texts

Decimal digits with at most one sign in front, and within bounds.
-/
namespace BackupVolume.Text

def decimalDigit? (c : Char) : Option Nat :=
  if '0' ≤ c && c ≤ '9' then some (c.toNat - '0'.toNat) else none

/-- The number whose decimal digits are `cs`; nothing if there is none. -/
def readDigits : List Char → Option Nat
  | [] => none
  | c :: cs => (c :: cs).foldlM (fun n c => (decimalDigit? c).map (10 * n + ·)) 0

def readInteger (least greatest : Int) (s : String) : Option Int := do
  let n ← match s.toList with
    | '-' :: cs => (readDigits cs).map fun n => -(n : Int)
    | '+' :: cs => (readDigits cs).map fun n => (n : Int)
    | cs => (readDigits cs).map fun n => (n : Int)
  if least ≤ n && n ≤ greatest then some n else none

def readNatural (greatest : Nat) (s : String) : Option Nat := do
  let n ← match s.toList with
    | '+' :: cs => readDigits cs
    | cs => readDigits cs
  if n ≤ greatest then some n else none

end BackupVolume.Text
