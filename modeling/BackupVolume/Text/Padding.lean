/-! # Columns of text

A text is brought to a width with blanks on one side. One that is wider stays as it is.
-/
namespace BackupVolume.Text

def blanks (n : Nat) : String := String.ofList (List.replicate n ' ')

def alignRight (width : Nat) (s : String) : String := blanks (width - s.length) ++ s

def alignLeft (width : Nat) (s : String) : String := s ++ blanks (width - s.length)

def zeroPadded (width n : Nat) : String :=
  let ds := Nat.toDigits 10 n
  String.ofList (List.replicate (width - ds.length) '0' ++ ds)

end BackupVolume.Text
