import Chip8.Terminal.Options
import Chip8.Terminal.Token

namespace Chip8.Terminal

open Text

/-- What the command line asks for. -/
inductive Command where
  | help
  | run (file : String) (options : Options)
deriving DecidableEq, Repr

structure Draft where
  options : Options
  file : Option String
  help : Bool

namespace Draft

def empty : Draft :=
  ⟨.default, none, false⟩

def turnOn (d : Draft) : Switch → Draft
  | .help => { d with help := true }
  | .debug => { d with options := { d.options with debug := true } }
  | .realtime => { d with options := { d.options with realtime := true } }
  | .dump => { d with options := { d.options with dump := true } }

/-- Gives a setting its value. The last value counts, but breakpoints and keys add up. -/
def assign (d : Draft) (value : String) : Setting → Except NumberError Draft
  | .frames => do
    let n ← readNumber 10 (UInt64.size - 1) value
    return { d with options := { d.options with frames := n } }
  | .ipf => do
    let n ← readNumber 10 (UInt64.size - 1) value
    return { d with options := { d.options with ipf := n } }
  | .rate => do
    let n ← readNumber 10 (UInt64.size - 1) value
    return { d with options := { d.options with rate := n } }
  | .breakpoint => do
    let n ← readNumber 16 (UInt16.size - 1) value
    return { d with options := { d.options with
      breakpoints := d.options.breakpoints ++ [UInt16.ofNat n] } }
  | .key => do
    let n ← readNumber 16 (UInt64.size - 1) value
    return { d with options := { d.options with keys := d.options.keys ++ [n] } }

/-- Takes one token into account. The only free argument is the file. -/
def add (d : Draft) : Token → Except UsageError Draft
  | .switch s => .ok (d.turnOn s)
  | .setting s option value => (d.assign value s).mapError (.invalidArgument option)
  | .free argument =>
    match d.file with
    | none => .ok { d with file := some argument }
    | some _ => .error (.unexpectedFree argument)
  | .fault e => .error e

/-- The command, once everything has been read. Help needs no file. -/
def command (d : Draft) : Except UsageError Command :=
  if d.help then .ok .help
  else
    match d.file with
    | none => .error .missingFree
    | some file => .ok (.run file d.options)

end Draft

/-- What a command line asks for. The arguments are read from left to right, and the first mistake
is reported. -/
def Command.ofArguments (arguments : List String) : Except UsageError Command := do
  let draft ← (Token.ofArguments arguments).foldlM Draft.add Draft.empty
  draft.command

end Chip8.Terminal
