import BackupVolume.Text.Utf8

/-! # Wildcard patterns

A pattern is matched against the octets of a whole name. A question mark stands for any octet, a
star for any octets, brackets for one octet of a class and braces for one of several patterns; a
backslash takes away the meaning of the character behind it. Two stars that stand alone between
slashes also match across directories or none at all.
-/
namespace BackupVolume.Selection

inductive GlobProblem where
  | unclosedClass
  | invalidRange (first last : Char)
  | unopenedAlternates
  | unclosedAlternates
  | danglingEscape
  deriving DecidableEq

def GlobProblem.message : GlobProblem → String
  | .unclosedClass => "unclosed character class; missing ']'"
  | .invalidRange a b =>
    "invalid range; " ++ String.singleton a ++ " > " ++ String.singleton b
  | .unopenedAlternates =>
    "unopened alternate group; missing '\x7b' (maybe escape '\x7d' with '[\x7d]'?)"
  | .unclosedAlternates =>
    "unclosed alternate group; missing '\x7d' (maybe escape '\x7b' with '[\x7b]'?)"
  | .danglingEscape => "dangling '\\'"

inductive GlobToken where
  | literal (c : Char)
  | any
  | star
  /-- Two stars at the start: nothing, or directories with their slashes. -/
  | leadingDirectories
  /-- Two stars at the end: a slash and anything behind it. -/
  | trailingDirectories
  /-- Two stars in the middle: a slash, or directories between slashes. -/
  | innerDirectories
  | oneOf (isNegated : Bool) (ranges : List (Char × Char))
  | alternates (choices : List (List GlobToken))

abbrev Glob := List GlobToken

namespace Glob

/-! ## Reading patterns -/

/-- What reading a pattern keeps: the characters left and the one before them, and the patterns
still open, the innermost first. An open group holds the tokens before it, its complete choices
and, as tokens, the choice being read; all of these last to first. -/
structure Reading where
  before : Option Char := none
  tokens : Glob := []
  groups : List (Glob × List Glob) := []

namespace Reading

def push (r : Reading) (t : GlobToken) : Reading := { r with tokens := t :: r.tokens }

def isInGroup (r : Reading) : Bool := !r.groups.isEmpty

def openGroup (r : Reading) : Reading :=
  { r with tokens := [], groups := (r.tokens, []) :: r.groups }

def nextChoice (r : Reading) : Reading :=
  match r.groups with
  | [] => r.push (.literal ',')
  | (outer, choices) :: groups =>
    { r with tokens := [], groups := (outer, r.tokens.reverse :: choices) :: groups }

def closeGroup (r : Reading) : Except GlobProblem Reading :=
  match r.groups with
  | [] => .error .unopenedAlternates
  | (outer, choices) :: groups =>
    .ok { r with
          tokens := .alternates (r.tokens.reverse :: choices).reverse :: outer
          groups }

/-- Two stars, of which `after` follows. The result tells also whether the character behind them
is taken in. -/
def twoStars (r : Reading) (after : Option Char) : Reading × Bool :=
  let twoPlain := (r.push .star).push .star
  let endsChoice := r.isInGroup && (after == some ',' || after == some '}')
  match r.tokens with
  | [] =>
    if after == none || after == some '/' then (r.push .leadingDirectories, after.isSome)
    else (twoPlain, false)
  | last :: rest =>
    let startsPart := r.before == some '/'
      || r.isInGroup && (r.before == some ',' || r.before == some '{')
    if !startsPart then (twoPlain, false)
    else if after == none || endsChoice || after == some '/' then
      let merged := match last with
        | .leadingDirectories => .leadingDirectories
        | .trailingDirectories => .trailingDirectories
        | _ => if after == some '/' then .innerDirectories else .trailingDirectories
      ({ r with tokens := merged :: rest }, after == some '/')
    else (twoPlain, false)

end Reading

structure ClassReading where
  isFirst : Bool := true
  isInRange : Bool := false
  ranges : List (Char × Char) := []

namespace ClassReading

def extendLast (k : ClassReading) (c : Char) : Except GlobProblem ClassReading :=
  match k.ranges with
  | (a, _) :: rest =>
    if c < a then .error (.invalidRange a c) else .ok ⟨false, false, (a, c) :: rest⟩
  | [] => .ok ⟨false, false, [(c, c)]⟩

def add (k : ClassReading) (c : Char) : Except GlobProblem ClassReading :=
  if k.isInRange then k.extendLast c
  else if c = '-' && !k.isFirst then .ok { k with isInRange := true }
  else .ok ⟨false, false, (c, c) :: k.ranges⟩

/-- The ranges; a dash at the end stands for itself. -/
def finish (k : ClassReading) : List (Char × Char) :=
  (if k.isInRange then ('-', '-') :: k.ranges else k.ranges).reverse

end ClassReading

def readClass (k : ClassReading) : List Char →
    Except GlobProblem (List (Char × Char) × List Char)
  | [] => .error .unclosedClass
  | c :: cs =>
    if c = ']' && !k.isFirst then .ok (k.finish, cs)
    else
      match k.add c with
      | .ok k => readClass k cs
      | .error e => .error e

def classStart : List Char → Bool × List Char
  | '!' :: cs => (true, cs)
  | '^' :: cs => (true, cs)
  | cs => (false, cs)

/-- Reads a pattern. The fuel is more than the number of characters. -/
def read : (fuel : Nat) → Reading → List Char → Except GlobProblem Reading
  | 0, r, _ | _, r, [] => .ok r
  | fuel + 1, r, c :: cs =>
    let after (r : Reading) : Reading := { r with before := some c }
    match c with
    | '?' => read fuel (after (r.push .any)) cs
    | '*' =>
      match cs with
      | '*' :: cs =>
        let (r, taken) := r.twoStars cs.head?
        if taken then read fuel { r with before := cs.head? } (cs.drop 1)
        else read fuel { r with before := some '*' } cs
      | _ => read fuel (after (r.push .star)) cs
    | '[' => do
      let (isNegated, cs) := classStart cs
      let (ranges, cs) ← readClass {} cs
      read fuel { r.push (.oneOf isNegated ranges) with before := some ']' } cs
    | '{' => read fuel (after r.openGroup) cs
    | '}' => do read fuel (after (← r.closeGroup)) cs
    | ',' => read fuel (after r.nextChoice) cs
    | '\\' =>
      match cs with
      | [] => .error .danglingEscape
      | c :: cs => read fuel { r.push (.literal c) with before := some c } cs
    | c => read fuel (after (r.push (.literal c))) cs

def parse (pattern : String) : Except GlobProblem Glob := do
  let cs := pattern.toList
  let r ← read (cs.length + 1) {} cs
  if r.groups.isEmpty then return r.tokens.reverse else .error .unclosedAlternates

/-! ## Matching names

A pattern leads from a set of places in the name to the set of places behind what it may match.
Places are numbers of octets, in ascending order.
-/

abbrev Places := List Nat

def onwards (text : Array UInt8) : Places → Places
  | [] => []
  | p :: _ => (List.range (text.size + 1 - p)).map (p + ·)

def behind (text : Array UInt8) (accepts : UInt8 → Bool) (ps : Places) : Places :=
  (ps.filter fun p => text[p]?.any accepts).map (· + 1)

def behindSlash (text : Array UInt8) (ps : Places) : Places := behind text (· == 0x2F) ps

def union (ps qs : Places) : Places := (ps.merge qs).eraseReps

/-- The octets of a class: each range goes from the last octet of its first character to the first
octet of its last one, and holds the other octets of both. -/
def inRange (b : UInt8) (range : Char × Char) : Bool :=
  let first := Text.Utf8.encode (String.singleton range.1)
  let last := Text.Utf8.encode (String.singleton range.2)
  if range.1 = range.2 then first.contains b
  else first.contains b || last.contains b
    || first.getLast?.any (· ≤ b) && last.head?.any (b ≤ ·)

mutual

def advance (text : Array UInt8) : GlobToken → Places → Places
  | .literal c, ps =>
    (Text.Utf8.encode (String.singleton c)).foldl (fun ps b => behind text (· == b) ps) ps
  | .any, ps => behind text (fun _ => true) ps
  | .star, ps => onwards text ps
  | .leadingDirectories, ps => union ps (behindSlash text (onwards text ps))
  | .trailingDirectories, ps => onwards text (behindSlash text ps)
  | .innerDirectories, ps =>
    let ps := behindSlash text ps
    union ps (behindSlash text (onwards text ps))
  | .oneOf isNegated ranges, ps => behind text (fun b => ranges.any (inRange b) != isNegated) ps
  | .alternates choices, ps =>
    if choices.all List.isEmpty then ps else advanceAny text choices ps

def advanceAll (text : Array UInt8) : List GlobToken → Places → Places
  | [], ps => ps
  | t :: ts, ps => advanceAll text ts (advance text t ps)

/-- The places behind what one of several patterns may match; empty ones match nothing here. -/
def advanceAny (text : Array UInt8) : List (List GlobToken) → Places → Places
  | [], _ => []
  | [] :: gs, ps => advanceAny text gs ps
  | (t :: ts) :: gs, ps => union (advanceAll text (t :: ts) ps) (advanceAny text gs ps)

end

/-- Whether a pattern matches all of a name. Two stars alone match every name. -/
def isMatch (g : Glob) (name : String) : Bool :=
  match g with
  | [.leadingDirectories] => true
  | _ =>
    let text := (Text.Utf8.encode name).toArray
    (advanceAll text g [0]).contains text.size

end Glob
end BackupVolume.Selection
