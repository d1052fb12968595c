import BackupVolume.Number.Binary64
import BackupVolume.Text.Quoted
import BackupVolume.Text.Utf8

/-! # Reading JSON texts

A text is read once, from its start to its end, into values whose types are known beforehand. What
is wrong is told with the line and the column that reading had come to. Records may be written as
objects or as lists; members that are not known are passed over.
-/
namespace BackupVolume.Json

inductive Problem where
  | endOfText (inside : String)
  | expected (what : String)
  | invalidEscape
  | invalidNumber
  | numberOutOfRange
  | controlCharacter
  | keyNotText
  | loneSurrogate
  | cutSurrogate
  | trailingComma
  | trailingCharacters
  | wrongType (found wanted : String)
  | wrongValue (found wanted : String)
  | wrongLength (length : Nat) (wanted : String)
  | duplicateField (name : String)
  | missingField (name : String)
  deriving DecidableEq

def Problem.message : Problem → String
  | .endOfText inside => "EOF while parsing " ++ inside
  | .expected what => "expected " ++ what
  | .invalidEscape => "invalid escape"
  | .invalidNumber => "invalid number"
  | .numberOutOfRange => "number out of range"
  | .controlCharacter => "control character (\\u0000-\\u001F) found while parsing a string"
  | .keyNotText => "key must be a string"
  | .loneSurrogate => "lone leading surrogate in hex escape"
  | .cutSurrogate => "unexpected end of hex escape"
  | .trailingComma => "trailing comma"
  | .trailingCharacters => "trailing characters"
  | .wrongType found wanted => "invalid type: " ++ found ++ ", expected " ++ wanted
  | .wrongValue found wanted => "invalid value: " ++ found ++ ", expected " ++ wanted
  | .wrongLength n wanted => "invalid length " ++ toString n ++ ", expected " ++ wanted
  | .duplicateField name => "duplicate field `" ++ name ++ "`"
  | .missingField name => "missing field `" ++ name ++ "`"

structure ReadError where
  problem : Problem
  line : Nat
  column : Nat
  deriving DecidableEq

def ReadError.message (e : ReadError) : String :=
  e.problem.message ++ " at line " ++ toString e.line ++ " column " ++ toString e.column

/-- What is left to read, and how many lines and octets of a line went before. -/
structure Cursor where
  rest : Bytes
  line : Nat := 1
  column : Nat := 0

namespace Cursor

def advance (c : Cursor) : Cursor :=
  match c.rest with
  | [] => c
  | b :: rest => if b == 0x0A then ⟨rest, c.line + 1, 0⟩ else ⟨rest, c.line, c.column + 1⟩

def advanceBy : (n : Nat) → Cursor → Cursor
  | 0, c => c
  | n + 1, c => advanceBy n c.advance

def isBlank (b : UInt8) : Bool := b == 0x20 || b == 0x0A || b == 0x09 || b == 0x0D

def pastBlanks (c : Cursor) : Cursor := advanceBy (c.rest.takeWhile isBlank).length c

end Cursor

abbrev Reader := StateT Cursor (Except ReadError)

namespace Reader

def fail {α : Type} (p : Problem) : Reader α := fun c => .error ⟨p, c.line, c.column⟩

def failNext {α : Type} (p : Problem) : Reader α := fun c =>
  .error ⟨p, c.advance.line, c.advance.column⟩

def peek : Reader (Option UInt8) := fun c => .ok (c.rest.head?, c)

def eat : Reader Unit := modify Cursor.advance

def peekPastBlanks : Reader (Option UInt8) := do
  modify Cursor.pastBlanks
  peek

/-- The octet is there, and is read. -/
def next? : Reader (Option UInt8) := do
  let b ← peek
  eat
  return b

def remaining : Reader Nat := fun c => .ok (c.rest.length, c)

def word : Bytes → Reader Unit
  | [] => return
  | b :: bs => do
    match ← next? with
    | none => fail (.endOfText "a value")
    | some found => if found == b then word bs else fail (.expected "ident")

def letters (s : String) : Reader Unit := word (Text.Utf8.encode s)

/-! ## Numbers -/

inductive Numeral where
  | natural (n : Nat)
  | negative (n : Nat)
  | fraction (isNegative : Bool) (value : Number.Binary64)

def Numeral.describe : Numeral → String
  | .natural n => "integer `" ++ toString n ++ "`"
  | .negative n => "integer `-" ++ toString n ++ "`"
  | .fraction isNegative v =>
    "floating point `" ++ (if isNegative then "-" else "") ++ v.text ++ "`"

def isDigit (b : UInt8) : Bool := 0x30 ≤ b && b ≤ 0x39

def digits : Reader Bytes := fun c =>
  let ds := c.rest.takeWhile isDigit
  .ok (ds, Cursor.advanceBy ds.length c)

def valueOf (ds : Bytes) : Nat := ds.foldl (fun n d => 10 * n + (d.toNat - 0x30)) 0

def nearestDecimal (d : Nat) (e : Int) : Number.Binary64 :=
  let (a, b) := Number.scale 10 d 1 e
  Number.Binary64.nearest a b

def exponent : Reader Int := do
  eat
  let sign ← peek
  if sign == some 0x2B || sign == some 0x2D then eat
  match ← peek with
  | none => fail (.endOfText "a value")
  | some b =>
    if isDigit b then
      let n := valueOf (← digits)
      return if sign == some 0x2D then -n else n
    else
      eat
      fail .invalidNumber

def decimals : Reader Bytes := do
  eat
  let ds ← digits
  if ds.isEmpty then
    match ← peek with
    | some _ => failNext .invalidNumber
    | none => failNext (.endOfText "a value")
  else return ds

def numeralTail (isNegative : Bool) (whole : Bytes) : Reader Numeral := do
  let n := valueOf whole
  let after ← peek
  let places ← if after == some 0x2E then decimals else pure []
  let letter ← peek
  let power ← if letter == some 0x65 || letter == some 0x45 then exponent else pure 0
  let isWhole := after != some 0x2E && letter != some 0x65 && letter != some 0x45
  if isWhole && !isNegative && n < UInt64.size then return .natural n
  else if isWhole && isNegative && 0 < n && 2 * n ≤ UInt64.size then return .negative n
  else
    let d := valueOf (whole ++ places)
    let e := power - places.length
    let value := nearestDecimal d (max (-2000) (min 2000 e))
    if value.isInfinite then fail .numberOutOfRange else return .fraction isNegative value

def numeral (isNegative : Bool) : Reader Numeral := do
  match ← peek with
  | none => fail (.endOfText "a value")
  | some b =>
    if b == 0x30 then
      eat
      match ← peek with
      | some d => if isDigit d then failNext .invalidNumber else numeralTail isNegative [b]
      | none => numeralTail isNegative [b]
    else if isDigit b then numeralTail isNegative (← digits)
    else
      eat
      fail .invalidNumber

/-! ## Texts -/

def hexValue (b : UInt8) : Option Nat := Text.Hex.digit? (Char.ofNat b.toNat)

def hexEscape : Reader Nat := do
  let four ← fun c => .ok ((c.rest.take 4), Cursor.advanceBy (min 4 c.rest.length) c)
  if four.length < 4 then fail (.endOfText "a string")
  else match four.mapM hexValue with
    | some ds => return ds.foldl (fun n d => 16 * n + d) 0
    | none => fail .invalidEscape

/-- The octet that must come next for a pair of surrogates. -/
def pairOctet (b : UInt8) : Reader Unit := do
  match ← next? with
  | none => fail (.endOfText "a string")
  | some found => if found == b then return else fail .cutSurrogate

def unicodeEscape : Reader Char := do
  let n ← hexEscape
  if 0xDC00 ≤ n && n ≤ 0xDFFF then fail .loneSurrogate
  else if n < 0xD800 || 0xDBFF < n then return Char.ofNat n
  else
    pairOctet 0x5C
    pairOctet 0x75
    let low ← hexEscape
    if low < 0xDC00 || 0xDFFF < low then fail .loneSurrogate
    else return Char.ofNat (0x10000 + 0x400 * (n - 0xD800) + (low - 0xDC00))

def escapes : List (UInt8 × UInt8) :=
  [(0x22, 0x22), (0x5C, 0x5C), (0x2F, 0x2F), (0x62, 0x08), (0x66, 0x0C), (0x6E, 0x0A), (0x72, 0x0D),
    (0x74, 0x09)]

def escaped : Reader Bytes := do
  match ← next? with
  | none => fail (.endOfText "a string")
  | some b =>
    if b == 0x75 then return Text.Utf8.encode (String.singleton (← unicodeEscape))
    else match escapes.lookup b with
      | some c => return [c]
      | none => fail .invalidEscape

/-- An escape in a text that is passed over; surrogates are not looked at. -/
def passEscape : Reader Unit := do
  match ← next? with
  | none => fail (.endOfText "a string")
  | some b =>
    if b == 0x75 then discard hexEscape
    else if (escapes.lookup b).isSome then return
    else fail .invalidEscape

/-- The octets of a text up to its closing quote, last to first in `seen`. The fuel is more than
the number of octets left. -/
def textOctets : (fuel : Nat) → (seen : Bytes) → Reader Bytes
  | 0, _ => fail (.endOfText "a string")
  | fuel + 1, seen => do
    match ← next? with
    | none => fail (.endOfText "a string")
    | some b =>
      if b == 0x22 then return seen.reverse
      else if b == 0x5C then
        let bs ← escaped
        textOctets fuel (bs.reverse ++ seen)
      else if b < 0x20 then fail .controlCharacter
      else textOctets fuel (b :: seen)

def textTail : Reader String := do
  let n ← remaining
  return Text.Utf8.decodeLossy (← textOctets (n + 1) [])

def passText : (fuel : Nat) → Reader Unit
  | 0 => fail (.endOfText "a string")
  | fuel + 1 => do
    match ← peek with
    | none => fail (.endOfText "a string")
    | some b =>
      if b < 0x20 then fail .controlCharacter
      else
        eat
        if b == 0x22 then return
        else
          if b == 0x5C then passEscape
          passText fuel

/-! ## Values that are not wanted -/

/-- Refuses the next value, which is read as far as it is needed to describe it. -/
def wrongType {α : Type} (wanted : String) : Reader α := do
  match ← peek with
  | some 0x6E => eat; letters "ull"; fail (.wrongType "null" wanted)
  | some 0x74 => eat; letters "rue"; fail (.wrongType "boolean `true`" wanted)
  | some 0x66 => eat; letters "alse"; fail (.wrongType "boolean `false`" wanted)
  | some 0x2D => eat; fail (.wrongType (← numeral true).describe wanted)
  | some 0x22 => eat; fail (.wrongType ("string " ++ Text.Quoted.string (← textTail)) wanted)
  | some 0x5B => fail (.wrongType "sequence" wanted)
  | some 0x7B => fail (.wrongType "map" wanted)
  | some b =>
    if isDigit b then fail (.wrongType (← numeral false).describe wanted)
    else failNext (.expected "value")
  | none => failNext (.expected "value")

inductive Bracket where
  | list
  | object
  deriving DecidableEq

def Bracket.closing : Bracket → UInt8
  | list => 0x5D
  | object => 0x7D

def Bracket.whole : Bracket → String
  | list => "a list"
  | object => "an object"

def Bracket.afterMember : Bracket → String
  | list => "`,` or `]`"
  | object => "`,` or `\x7d`"

def passNumeral : Reader Unit := do
  match ← next? with
  | some 0x30 =>
    match ← peek with
    | some d => if isDigit d then failNext .invalidNumber
    | none => return
  | some b => if isDigit b then discard digits else fail .invalidNumber
  | none => fail .invalidNumber
  if (← peek) == some 0x2E then
    eat
    if (← digits).isEmpty then failNext .invalidNumber
  let letter ← peek
  if letter == some 0x65 || letter == some 0x45 then
    eat
    let sign ← peek
    if sign == some 0x2B || sign == some 0x2D then eat
    match ← next? with
    | some b => if isDigit b then discard digits else fail .invalidNumber
    | none => fail .invalidNumber

def passScalar (b : UInt8) : Reader (Option Bracket) := do
  match b with
  | 0x6E => eat; letters "ull"; return none
  | 0x74 => eat; letters "rue"; return none
  | 0x66 => eat; letters "alse"; return none
  | 0x2D => eat; passNumeral; return none
  | 0x22 => eat; passText ((← remaining) + 1); return none
  | 0x5B => eat; return some .list
  | 0x7B => eat; return some .object
  | _ =>
    if isDigit b then passNumeral; return none
    else failNext (.expected "value")

/-- Closes brackets behind a member, or before the first one, and goes on to the next member. The
result is the brackets that stay open, or nothing when the value ends. -/
def closeBrackets : (fuel : Nat) → (afterMember : Bool) → List Bracket →
    Reader (Option (List Bracket))
  | 0, _, _ | _, _, [] => return none
  | fuel + 1, afterMember, k :: ks => do
    match ← peekPastBlanks with
    | none => failNext (.endOfText k.whole)
    | some b =>
      if b == k.closing then
        eat
        if ks.isEmpty then return none else closeBrackets fuel true ks
      else if !afterMember then return some (k :: ks)
      else if b == 0x2C then
        eat
        return some (k :: ks)
      else failNext (.expected k.afterMember)

def passName : Reader Unit := do
  match ← peekPastBlanks with
  | some 0x22 => eat
  | some _ => failNext .keyNotText
  | none => failNext (.endOfText "an object")
  passText ((← remaining) + 1)
  match ← peekPastBlanks with
  | some 0x3A => eat
  | some _ => failNext (.expected "`:`")
  | none => failNext (.endOfText "an object")

def passValue : (fuel : Nat) → List Bracket → Reader Unit
  | 0, _ => return
  | fuel + 1, open_ => do
    match ← peekPastBlanks with
    | none => failNext (.endOfText "a value")
    | some b =>
      let opened ← passScalar b
      let stack := opened.toList ++ open_
      match ← closeBrackets (stack.length + 1) opened.isNone stack with
      | none => return
      | some stack =>
        if stack.head? == some .object then passName
        passValue fuel stack

def pass : Reader Unit := do passValue ((← remaining) + 1) []

/-! ## Values that are wanted -/

def peekValue : Reader UInt8 := do
  match ← peekPastBlanks with
  | some b => return b
  | none => failNext (.endOfText "a value")

def bool : Reader Bool := do
  match ← peekValue with
  | 0x74 => eat; letters "rue"; return true
  | 0x66 => eat; letters "alse"; return false
  | _ => wrongType "a boolean"

def integer (wanted : String) (least greatest : Int) : Reader Int := do
  let b ← peekValue
  if b == 0x2D || isDigit b then
    let isNegative := b == 0x2D
    if isNegative then eat
    let n ← numeral isNegative
    let value : Option Int := match n with
      | .natural n => some n
      | .negative n => some (-n)
      | .fraction .. => none
    match value with
    | none => fail (.wrongType n.describe wanted)
    | some v =>
      if least ≤ v && v ≤ greatest then return v else fail (.wrongValue n.describe wanted)
  else wrongType wanted

def uint8 : Reader UInt8 := do return (← integer "u8" 0 255).toNat.toUInt8
def uint32 : Reader UInt32 := do return (← integer "u32" 0 (UInt32.size - 1)).toNat.toUInt32
def uint64 : Reader Nat := do return (← integer "u64" 0 (UInt64.size - 1)).toNat
def size : Reader Nat := do return (← integer "usize" 0 (UInt64.size - 1)).toNat
def int32 : Reader Int32 := do
  return Int32.ofInt (← integer "i32" Int32.minValue.toInt Int32.maxValue.toInt)

def text : Reader String := do
  match ← peekValue with
  | 0x22 => eat; textTail
  | _ => wrongType "a string"

def nullable {α : Type} (r : Reader α) : Reader (Option α) := do
  match ← peekPastBlanks with
  | some 0x6E => eat; letters "ull"; return none
  | _ => return some (← r)

def nextElement (isFirst : Bool) : Reader Bool := do
  match ← peekPastBlanks with
  | some 0x5D => return false
  | none => failNext (.endOfText "a list")
  | some b =>
    if isFirst then return true
    else if b == 0x2C then
      eat
      match ← peekPastBlanks with
      | some 0x5D => failNext .trailingComma
      | some _ => return true
      | none => failNext (.endOfText "a value")
    else failNext (.expected "`,` or `]`")

def endList : Reader Unit := do
  match ← peekPastBlanks with
  | some 0x5D => eat
  | some 0x2C =>
    eat
    if (← peekPastBlanks) == some 0x5D then failNext .trailingComma
    else failNext .trailingCharacters
  | some _ => failNext .trailingCharacters
  | none => failNext (.endOfText "a list")

def endObject : Reader Unit := do
  match ← peekPastBlanks with
  | some 0x7D => eat
  | some 0x2C => failNext .trailingComma
  | some _ => failNext .trailingCharacters
  | none => failNext (.endOfText "an object")

/-- A problem with a list or an object as a whole, told behind its end as far as that comes
next. -/
def failWhole {α : Type} (p : Problem) (k : Bracket) : Reader α := do
  let b ← peekPastBlanks
  if b == some k.closing then eat
  else if b == some 0x2C && k == .list then
    eat
    discard peekPastBlanks
  fail p

def elements {α : Type} (r : Reader α) : (fuel : Nat) → (isFirst : Bool) → Reader (List α)
  | 0, _ => return []
  | fuel + 1, isFirst => do
    if ← nextElement isFirst then
      let v ← r
      return v :: (← elements r fuel false)
    else return []

def list {α : Type} (r : Reader α) : Reader (List α) := do
  match ← peekValue with
  | 0x5B =>
    eat
    let vs ← elements r ((← remaining) + 1) true
    endList
    return vs
  | _ => wrongType "a sequence"

def pair {α β : Type} (r : Reader α) (s : Reader β) : Reader (α × β) := do
  let wanted := "a tuple of size 2"
  match ← peekValue with
  | 0x5B =>
    eat
    if !(← nextElement true) then failWhole (.wrongLength 0 wanted) .list
    let a ← r
    if !(← nextElement false) then failWhole (.wrongLength 1 wanted) .list
    let b ← s
    endList
    return (a, b)
  | _ => wrongType wanted

structure Member (β : Type) where
  name : String
  isRequired : Bool
  read : β → Reader β

def nextName (isFirst : Bool) : Reader (Option String) := do
  let name : Reader (Option String) := do
    eat
    return some (← textTail)
  match ← peekPastBlanks with
  | some 0x7D => return none
  | none => failNext (.endOfText "an object")
  | some b =>
    if isFirst then
      if b == 0x22 then name else failNext .keyNotText
    else if b == 0x2C then
      eat
      match ← peekPastBlanks with
      | some 0x22 => name
      | some 0x7D => failNext .trailingComma
      | some _ => failNext .keyNotText
      | none => failNext (.endOfText "a value")
    else failNext (.expected "`,` or `\x7d`")

def colon : Reader Unit := do
  match ← peekPastBlanks with
  | some 0x3A => eat
  | some _ => failNext (.expected "`:`")
  | none => failNext (.endOfText "an object")

/-- Members in any order; `seen` holds the names of those that have been read. -/
def members {β : Type} (fields : List (Member β)) :
    (fuel : Nat) → (isFirst : Bool) → (seen : List String) → β → Reader β
  | 0, _, _, v => return v
  | fuel + 1, isFirst, seen, v => do
    match ← nextName isFirst with
    | none =>
      match fields.find? fun f => f.isRequired && !seen.contains f.name with
      | some f => failWhole (.missingField f.name) .object
      | none => return v
    | some name =>
      match fields.find? fun f => f.name == name with
      | none =>
        colon
        pass
        members fields fuel false seen v
      | some f =>
        if seen.contains name then failWhole (.duplicateField name) .object
        else
          colon
          members fields fuel false (name :: seen) (← f.read v)

/-- The members of a record in order; those at the end may be missing. -/
def listed {β : Type} (wanted : String) (isFirst : Bool) (index : Nat) :
    List (Member β) → β → Reader β
  | [], v => return v
  | f :: fs, v => do
    if ← nextElement isFirst then listed wanted false (index + 1) fs (← f.read v)
    else if f.isRequired then failWhole (.wrongLength index wanted) .list
    else listed wanted isFirst (index + 1) fs v

def record {β : Type} (name : String) (fields : List (Member β)) (start : β) : Reader β := do
  match ← peekValue with
  | 0x5B =>
    eat
    let wanted := "struct " ++ name ++ " with " ++ toString fields.length ++ " elements"
    let v ← listed wanted true 0 fields start
    endList
    return v
  | 0x7B =>
    eat
    let v ← members fields ((← remaining) + 1) true [] start
    endObject
    return v
  | _ => wrongType ("struct " ++ name)

def run {α : Type} (r : Reader α) (s : Bytes) : Except ReadError α :=
  let whole : Reader α := do
    let v ← r
    match ← peekPastBlanks with
    | none => return v
    | some _ => failNext .trailingCharacters
  (whole ⟨s, 1, 0⟩).map (·.1)

end Reader
end BackupVolume.Json
