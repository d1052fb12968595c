import BackupVolume.Text.Hex
import BackupVolume.Text.Printable

/-! # Quoted texts

A text between quotes, in which the quote, the backslash and characters that cannot be shown are
escaped.
-/
namespace BackupVolume.Text.Quoted

def byNumber (c : Char) : String := "\\u\x7b" ++ Hex.ofNat c.toNat ++ "\x7d"

def escape (quote c : Char) : String :=
  if c = quote || c = '\\' then String.ofList ['\\', c]
  else if c = '\x00' then "\\0"
  else if c = '\t' then "\\t"
  else if c = '\r' then "\\r"
  else if c = '\n' then "\\n"
  else if isPrintable c && !isExtender c then String.singleton c
  else byNumber c

def string (s : String) : String := "\"" ++ String.join (s.toList.map (escape '"')) ++ "\""

def char (c : Char) : String := "'" ++ escape '\'' c ++ "'"

end BackupVolume.Text.Quoted
