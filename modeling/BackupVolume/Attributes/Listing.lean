import BackupVolume.Attributes.Basic
import BackupVolume.Calendar

/-! # Long listings

One line for a file: kind and permissions, number of links, owner, group, size, time of the last
change, name and the target of a link.
-/
namespace BackupVolume.Attributes

def kindLetter (mode : UInt32) : Char :=
  match mode &&& 0o170000 with
  | 0o040000 => 'd'
  | 0o120000 => 'l'
  | 0o020000 => 'c'
  | 0o060000 => 'b'
  | 0o010000 => 'p'
  | 0o140000 => 's'
  | _ => '-'

def permissionLetters (bits : UInt32) : List Char :=
  [if bits &&& 4 != 0 then 'r' else '-', if bits &&& 2 != 0 then 'w' else '-',
    if bits &&& 1 != 0 then 'x' else '-']

def modeText (mode : UInt32) : String :=
  String.ofList (kindLetter mode :: (permissionLetters (mode >>> 6)
    ++ (permissionLetters (mode >>> 3) ++ permissionLetters mode)))

def listing (a : Attributes) : String :=
  let time := (Calendar.timestamp? a.stat.mtime.toInt).getD "????-??-?? ??:??:??"
  let columns := [modeText a.stat.mode, Text.alignRight 3 (toString a.stat.nlink),
    Text.alignLeft 8 (toString a.stat.uid), Text.alignLeft 8 (toString a.stat.gid),
    Text.alignRight 12 (toString a.stat.size), time, a.name]
  let isLink := a.type == .symbolicLink || a.type == .linkSaved
  String.intercalate " " columns ++ if isLink && a.link != "" then " -> " ++ a.link else ""

end BackupVolume.Attributes
