namespace Chip8

/-- Whether the machine executes instructions. A machine that has quit stays so until the next
load. -/
inductive RunState where
  | running
  | paused
  | quit
deriving DecidableEq, Repr

namespace RunState

def initial : RunState :=
  running

def name : RunState → String
  | running => "Running"
  | paused => "Paused"
  | quit => "Quit"

end RunState

end Chip8
