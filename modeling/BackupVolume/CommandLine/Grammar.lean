import BackupVolume.CommandLine.Word
import BackupVolume.Text.Padding

/-! # Grammars of command lines

A command has options, which may come in any order, and places for values, which are filled one
after another. An option is a flag, is counted, or wants a value: the rest of its word or the whole
next word. Flags and values may be given once only.
-/
namespace BackupVolume.CommandLine

inductive UsageError where
  | helpAsked
  | noCommand
  | unknownCommand (name : String)
  | unexpected (argument : String)
  | repeated (option : String)
  | noValue (option : String)
  | unwantedValue (option value : String)
  | badValue (label value : String)
  | missing (labels : List String)
  deriving DecidableEq

def UsageError.message : UsageError → String
  | .helpAsked => "help is wanted"
  | .noCommand => "a command is required"
  | .unknownCommand name => "unrecognized command '" ++ name ++ "'"
  | .unexpected argument => "unexpected argument '" ++ argument ++ "'"
  | .repeated option => "the option '--" ++ option ++ "' cannot be used more than once"
  | .noValue option => "the option '--" ++ option ++ "' wants a value"
  | .unwantedValue option value => "unexpected value '" ++ value ++ "' for '--" ++ option ++ "'"
  | .badValue label value => "invalid value '" ++ value ++ "' for <" ++ label ++ ">"
  | .missing labels => "required arguments are missing: " ++ String.intercalate ", " labels

/-- A value that is wanted: what it is called and what it changes. -/
structure Slot (α : Type) where
  label : String
  set : α → String → Option α

inductive OptionForm (α : Type) where
  | flag (set : α → α)
  | counted (add : α → α)
  | valued (slot : Slot α)

structure OptionRule (α : Type) where
  letter : Option Char := none
  name : String
  form : OptionForm α
  isRequired : Bool := false
  about : String := ""

structure Grammar (α : Type) where
  about : String
  options : List (OptionRule α)
  places : List (Slot α × String)

variable {α β : Type}

def Slot.fill (s : Slot α) (a : α) (value : String) : Except UsageError α :=
  match s.set a value with
  | some a => .ok a
  | none => .error (.badValue s.label value)

def Slot.within (part : β → α) (put : β → α → β) (s : Slot α) : Slot β :=
  ⟨s.label, fun b value => (s.set (part b) value).map (put b)⟩

def OptionForm.within (part : β → α) (put : β → α → β) : OptionForm α → OptionForm β
  | flag set => flag fun b => put b (set (part b))
  | counted add => counted fun b => put b (add (part b))
  | valued slot => valued (slot.within part put)

def OptionRule.within (part : β → α) (put : β → α → β) (r : OptionRule α) : OptionRule β :=
  { r with form := r.form.within part put }

structure Progress (α : Type) where
  result : α
  /-- The names of the options that cannot be given again. -/
  used : List String := []
  filled : Nat := 0

structure Waiting (α : Type) where
  rule : OptionRule α
  slot : Slot α

namespace Progress

def note (p : Progress α) (rule : OptionRule α) : Except UsageError (Progress α) :=
  if p.used.contains rule.name then .error (.repeated rule.name)
  else .ok { p with used := rule.name :: p.used }

def setFlag (p : Progress α) (rule : OptionRule α) (set : α → α) :
    Except UsageError (Progress α) :=
  (p.note rule).map fun p => { p with result := set p.result }

def setValue (p : Progress α) (w : Waiting α) (value : String) :
    Except UsageError (Progress α) := do
  let p ← p.note w.rule
  return { p with result := ← w.slot.fill p.result value }

def place (g : Grammar α) (p : Progress α) (value : String) : Except UsageError (Progress α) :=
  match g.places[p.filled]? with
  | none => .error (.unexpected value)
  | some (slot, _) => (slot.fill p.result value).map fun result =>
      { p with result, filled := p.filled + 1 }

def option (g : Grammar α) (p : Progress α) (name : String) (value : Option String) :
    Except UsageError (Progress α × Option (Waiting α)) :=
  match g.options.find? fun r => r.name == name with
  | none =>
    .error (if name == "help" && value.isNone then .helpAsked else .unexpected ("--" ++ name))
  | some rule =>
    match rule.form, value with
    | .valued slot, none => .ok (p, some ⟨rule, slot⟩)
    | .valued slot, some v => (p.setValue ⟨rule, slot⟩ v).map (·, none)
    | .flag set, none => (p.setFlag rule set).map (·, none)
    | .counted add, none => .ok ({ p with result := add p.result }, none)
    | _, some v => .error (.unwantedValue name v)

/-- Takes options of one letter each. What follows the letter of an option with a value is the
value, with or without an equals sign in front. -/
def letters (g : Grammar α) (p : Progress α) :
    List Char → Except UsageError (Progress α × Option (Waiting α))
  | [] => .ok (p, none)
  | c :: cs =>
    match g.options.find? fun r => r.letter == some c with
    | none => .error (if c = 'h' then .helpAsked else .unexpected (String.ofList ['-', c]))
    | some rule =>
      match rule.form with
      | .flag set => do letters g (← p.setFlag rule set) cs
      | .counted add => letters g { p with result := add p.result } cs
      | .valued slot =>
        match cs with
        | [] => .ok (p, some ⟨rule, slot⟩)
        | '=' :: value => (p.setValue ⟨rule, slot⟩ (String.ofList value)).map (·, none)
        | value => (p.setValue ⟨rule, slot⟩ (String.ofList value)).map (·, none)

def accept (g : Grammar α) (p : Progress α) :
    Word → Except UsageError (Progress α × Option (Waiting α))
  | .plain s => (p.place g s).map (·, none)
  | .option name value => p.option g name value
  | .letters cs => p.letters g cs
  | .endOfOptions => .ok (p, none)

/-- Reads the words of a command line. An option that waits for its value takes the next word,
which must then be a plain one. -/
def read (g : Grammar α) (p : Progress α) : List String → Except UsageError (Progress α)
  | [] => .ok p
  | s :: rest =>
    if Word.ofString s = .endOfOptions then rest.foldlM (place g) p
    else do
      match ← p.accept g (Word.ofString s), rest with
      | (p, none), rest => read g p rest
      | (p, some w), v :: rest =>
        if (Word.ofString v).isPlain then read g (← p.setValue w v) rest
        else throw (.noValue w.rule.name)
      | (_, some w), [] => throw (.noValue w.rule.name)

def missing (g : Grammar α) (p : Progress α) : List String :=
  (g.options.filter fun r => r.isRequired && !p.used.contains r.name).map (fun r => "--" ++ r.name)
    ++ (g.places.drop p.filled).map fun (slot, _) => "<" ++ slot.label ++ ">"

end Progress

/-- What a whole command line gives, with `a` where it tells nothing. -/
def Grammar.read (g : Grammar α) (a : α) (arguments : List String) : Except UsageError α := do
  let p ← Progress.read g { result := a } arguments
  match p.missing g with
  | [] => return p.result
  | labels => throw (.missing labels)

/-! ## Help -/

def OptionRule.heading (r : OptionRule α) : String :=
  "--" ++ r.name ++ match r.form with
    | .valued slot => " <" ++ slot.label ++ ">"
    | _ => ""

def OptionRule.fullHeading (r : OptionRule α) : String :=
  (match r.letter with
    | some c => String.ofList ['-', c, ',', ' ']
    | none => "    ") ++ r.heading

def columns (rows : List (String × String)) : List String :=
  let width := (rows.map fun r => r.1.length).foldl max 0
  rows.map fun (left, right) => "  " ++ Text.alignLeft width left ++ "  " ++ right

def Grammar.usage (g : Grammar α) (command : String) : List String :=
  let places := g.places.map fun (slot, about) => ("<" ++ slot.label ++ ">", about)
  let required := (g.options.filter OptionRule.isRequired).map OptionRule.heading
  let call := command :: "[OPTIONS]" :: (required ++ places.map Prod.fst)
  [g.about, "", "Usage: " ++ String.intercalate " " call, "", "Arguments:"]
    ++ columns places ++ ["", "Options:"]
    ++ columns ((g.options.map fun r => (r.fullHeading, r.about)) ++ [("-h, --help", "Print help")])

end BackupVolume.CommandLine
