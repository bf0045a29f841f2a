import Chip8.Text.Numeral
import Chip8.Text.Record

namespace Chip8

open Text

/-- Why an operation on the machine failed. The first four causes are faults of the running program,
the others are mistakes of the host that drives the machine. -/
inductive Error where
  /-- An access outside memory, with the first address of it that does not exist. -/
  | outOfBounds (addr : Nat)
  /-- A call while every slot of the stack is taken, with the address that was called. -/
  | stackOverflow (addr : UInt16)
  /-- A return while no call is open, with the address of the return. -/
  | stackUnderflow (pc : UInt16)
  | unimplementedOpcode (word : UInt16)
  | romTooLarge (size max : Nat)
  | fontTooLarge (size max : Nat)
  | invalidScreenSize (width height : Nat)
  | invalidKey (key : Nat)
  | invalidRegister (reg : Nat)
deriving DecidableEq, Repr

namespace Error

def message : Error → String
  | outOfBounds addr => "address " ++ hex 3 addr ++ " is out of bounds"
  | stackOverflow addr => "stack overflow calling " ++ hex 3 addr.toNat
  | stackUnderflow pc => "stack underflow returning from " ++ hex 3 pc.toNat
  | unimplementedOpcode word => "opcode " ++ hex 4 word.toNat ++ " not recognized"
  | romTooLarge size max =>
    "rom of " ++ decimal size ++ " bytes does not fit in " ++ decimal max ++ " bytes of program memory"
  | fontTooLarge size max =>
    "font of " ++ decimal size ++ " bytes does not fit in " ++ decimal max ++ " bytes of font memory"
  | invalidScreenSize width height =>
    "screen of " ++ decimal width ++ "x" ++ decimal height ++ " pixels has no area"
  | invalidKey key => "tried to press key " ++ upperHex key ++ " which does not exist"
  | invalidRegister reg => "tried to access register v" ++ upperHex reg ++ " which does not exist"

def cause : Error → String
  | outOfBounds _ => "OutOfBounds"
  | stackOverflow _ => "StackOverflow"
  | stackUnderflow _ => "StackUnderflow"
  | unimplementedOpcode _ => "UnimplementedOpcode"
  | romTooLarge _ _ => "RomTooLarge"
  | fontTooLarge _ _ => "FontTooLarge"
  | invalidScreenSize _ _ => "InvalidScreenSize"
  | invalidKey _ => "InvalidKey"
  | invalidRegister _ => "InvalidRegister"

def details : Error → List (String × Nat)
  | outOfBounds addr => [("addr", addr)]
  | stackOverflow addr => [("addr", addr.toNat)]
  | stackUnderflow pc => [("pc", pc.toNat)]
  | unimplementedOpcode word => [("word", word.toNat)]
  | romTooLarge size max => [("size", size), ("max", max)]
  | fontTooLarge size max => [("size", size), ("max", max)]
  | invalidScreenSize width height => [("width", width), ("height", height)]
  | invalidKey key => [("key", key)]
  | invalidRegister reg => [("reg", reg)]

def record (e : Error) : String :=
  Text.record e.cause (e.details.map fun (field, value) => (field, decimal value))

end Error

/-- What an operation leaves behind, and its answer or why it failed. Whatever it has written before a
failure stays written. -/
abbrev Outcome (σ α : Type) := σ × Except Error α

end Chip8
