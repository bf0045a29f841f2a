namespace Chip8.Text

/-- `n` in decimal, without leading zeros. -/
def decimal (n : Nat) : String :=
  String.ofList (Nat.toDigits 10 n)

/-- `n` in lower-case hexadecimal, filled up with zeros to at least `width` digits.
A number that needs more digits is written in full. -/
def hex (width n : Nat) : String :=
  String.ofList ((Nat.toDigits 16 n).leftpad width '0')

/-- `n` in upper-case hexadecimal, without leading zeros. -/
def upperHex (n : Nat) : String :=
  String.ofList ((Nat.toDigits 16 n).map Char.toUpper)

/-- `text` moved to the right edge of a column of `width` characters. A longer text is kept whole. -/
def alignRight (width : Nat) (text : String) : String :=
  String.ofList (text.toList.leftpad width ' ')

/-- `text` at the left edge of a column of `width` characters. A longer text is kept whole. -/
def alignLeft (width : Nat) (text : String) : String :=
  String.ofList (text.toList.rightpad width ' ')

@[simp] theorem toList_hex (width n : Nat) :
    (hex width n).toList = (Nat.toDigits 16 n).leftpad width '0' := by
  simp [hex]

@[simp] theorem toList_upperHex (n : Nat) :
    (upperHex n).toList = (Nat.toDigits 16 n).map Char.toUpper := by
  simp [upperHex]

end Chip8.Text
