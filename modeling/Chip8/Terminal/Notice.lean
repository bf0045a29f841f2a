import Chip8.Core.Trace
import Chip8.Cpu.Text
import Chip8.Memory.Dump
import Chip8.Screen.Text

namespace Chip8.Terminal

inductive Channel where
  | output
  | errors
deriving DecidableEq, Repr

/-- Something that a session tells the user. -/
inductive Notice where
  | dump (text : String)
  /-- An instruction that is about to execute. -/
  | trace (line : TraceLine)
  | registers (cpu : Cpu)
  | screen (picture : Screen)
  /-- The machine arrived at a breakpoint. -/
  | breakpoint (addr : Word)
  | fault (error : Error)

namespace Notice

/-- Results are output; interruptions are not. -/
def channel : Notice → Channel
  | dump _ | trace _ | registers _ | screen _ => .output
  | breakpoint _ | fault _ => .errors

/-- The text of a notice, with the end of its last line. -/
def text : Notice → String
  | dump text => text
  | trace line => line.render
  | registers cpu => cpu.dump
  | screen picture => picture.render
  | breakpoint addr => "Breakpoint hit: " ++ Text.hex 3 addr.toNat ++ "\n"
  | fault error => Text.alarm error.message ++ "\n"

end Notice

end Chip8.Terminal
