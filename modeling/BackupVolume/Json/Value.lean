import BackupVolume.Text.Hex

/-! # JSON texts

Values and their compact text. Strings escape the quote, the backslash and control characters, five
of them by a letter.
-/
namespace BackupVolume.Json

inductive Value where
  | number (n : Int)
  | text (s : String)
  | list (vs : List Value)
  | object (members : List (String × Value))

def escape (c : Char) : String :=
  if c = '"' then "\\\""
  else if c = '\\' then "\\\\"
  else if c = '\x08' then "\\b"
  else if c = '\x0c' then "\\f"
  else if c = '\n' then "\\n"
  else if c = '\r' then "\\r"
  else if c = '\t' then "\\t"
  else if c.toNat < 0x20 then "\\u" ++ Text.Hex.ofNatPadded 4 c.toNat
  else String.singleton c

def quote (s : String) : String := "\"" ++ String.join (s.toList.map escape) ++ "\""

mutual

def Value.render : Value → String
  | .number n => toString n
  | .text s => quote s
  | .list vs => "[" ++ Value.renderList vs ++ "]"
  | .object ms => "\x7b" ++ Value.renderMembers ms ++ "\x7d"

def Value.renderList : List Value → String
  | [] => ""
  | [v] => v.render
  | v :: vs => v.render ++ "," ++ Value.renderList vs

def Value.renderMembers : List (String × Value) → String
  | [] => ""
  | [(k, v)] => quote k ++ ":" ++ v.render
  | (k, v) :: ms => quote k ++ ":" ++ v.render ++ "," ++ Value.renderMembers ms

end

end BackupVolume.Json
