import Chip8.Core.Tick
import Chip8.Font
import Chip8.Keypad
import Chip8.Memory.Load
import Chip8.RunState
import Chip8.Timers

namespace Chip8

/-- The whole machine: the core that executes instructions, and the parts that the host drives. -/
structure Machine extends Core where
  timers : Timers
  keypad : Keypad
  state : RunState
deriving DecidableEq

namespace Machine

/-- Memory that holds the built-in font and no program. -/
def fontMemory : Memory :=
  Memory.zeroed.blit Region.charset.start Font.bytes

def withScreen (screen : Screen) : Machine where
  cpu := .initial false
  mem := fontMemory
  screen := screen
  timers := .zero
  keypad := .released
  state := .initial

def standard : Machine :=
  withScreen .standard

/-- A new machine with a screen of a given size, if there is such a screen. -/
def ofSize (width height : Nat) (harea : width * height < Screen.areaLimit) : Except Error Machine :=
  (Screen.ofSize width height harea).map withScreen

/-- Starts a program afresh with a font. The keypad, the breakpoints and the listing belong to the
host and stay. Memory is loaded before anything else, since something may not fit. -/
def load (m : Machine) (font program : List UInt8) : Outcome Machine Unit :=
  match m.mem.load font program with
  | (mem, .error e) => ({ m with mem := mem }, .error e)
  | (mem, .ok ()) =>
    ({ m with
        cpu := m.cpu.reset
        mem := mem
        screen := m.screen.clear
        timers := .zero
        state := .running }, .ok ())

def loadProgram (m : Machine) (program : List UInt8) : Outcome Machine Unit :=
  m.load Font.bytes program

def tickTimers (m : Machine) : Machine :=
  { m with timers := m.timers.tick }

/-- Holds a running machine. One that has quit is not revived. -/
def pause (m : Machine) : Machine :=
  if m.state = .running then { m with state := .paused } else m

/-- Lets a paused machine go on. One that has quit is not revived. -/
def resume (m : Machine) : Machine :=
  if m.state = .paused then { m with state := .running } else m

/-- Executes one instruction whatever the run state is, and leaves the run state alone. -/
def tick (m : Machine) (roll : UInt8) : Outcome Machine Unit :=
  let (core, result) := m.toCore.tick roll
  ({ m with toCore := core }, result)

/-- Executes one instruction if the machine is running. A fault makes it quit, and arriving at a
breakpoint pauses it. The answer is the run state, or the fault. -/
def step (m : Machine) (roll : UInt8) : Outcome Machine RunState :=
  if m.state = .running then
    match m.toCore.tick roll with
    | (core, .error e) => ({ m with toCore := core, state := .quit }, .error e)
    | (core, .ok ()) =>
      let state := if core.cpu.atBreakpoint then RunState.paused else .running
      ({ m with toCore := core, state := state }, .ok state)
  else (m, .ok m.state)

end Machine

end Chip8
