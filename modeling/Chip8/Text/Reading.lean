namespace Chip8.Text

/-- Why a text is not a number of the wanted kind. -/
inductive NumberError where
  | empty
  | invalidDigit
  | tooLarge
deriving DecidableEq, Repr

def NumberError.message : NumberError → String
  | empty => "cannot parse integer from empty string"
  | invalidDigit => "invalid digit found in string"
  | tooLarge => "number too large to fit in target type"

/-- The value of a digit in a base, letters of either case standing for ten and more. -/
def digitValue? (base : Nat) (c : Char) : Option Nat :=
  let value :=
    if '0' ≤ c ∧ c ≤ '9' then c.toNat - '0'.toNat
    else if 'a' ≤ c ∧ c ≤ 'z' then c.toNat - 'a'.toNat + 10
    else if 'A' ≤ c ∧ c ≤ 'Z' then c.toNat - 'A'.toNat + 10
    else base
  if value < base then some value else none

/-- Continues a number that starts with the digits of `value`. The first digit that cannot be taken
decides which error is reported. -/
def readDigits (base max value : Nat) : List Char → Except NumberError Nat
  | [] => .ok value
  | c :: rest =>
    match digitValue? base c with
    | none => .error .invalidDigit
    | some digit =>
      if max < value * base + digit then .error .tooLarge
      else readDigits base max (value * base + digit) rest

/-- Reads a number from zero to `max`. A plus sign may stand before the digits; a sign alone is no
number. -/
def readNumber (base max : Nat) (text : String) : Except NumberError Nat :=
  match text.toList with
  | [] => .error .empty
  | ['+'] => .error .invalidDigit
  | '+' :: digits => readDigits base max 0 digits
  | digits => readDigits base max 0 digits

end Chip8.Text
