import Chip8.Text.Numeral

namespace Chip8.Text

def commaSeparated (items : List String) : String :=
  ", ".intercalate items

def listing (items : List String) : String :=
  "[" ++ commaSeparated items ++ "]"

/-- A value with named fields on one line, such as `Timers { delay: 0, sound: 0 }`. A value without
fields is its name alone. -/
def record (name : String) (fields : List (String × String)) : String :=
  match fields with
  | [] => name
  | _ =>
    let entries := fields.map fun (field, value) => field ++ ": " ++ value
    name ++ " \x7b " ++ commaSeparated entries ++ " \x7d"

def truth (b : Bool) : String :=
  if b then "true" else "false"

end Chip8.Text
