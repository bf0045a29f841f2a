import Chip8.Core.Trace
import Chip8.Machine.Basic
import Chip8.Machine.Noise

namespace Chip8

/-- A machine in operation, with its source of random bytes and the lines that it has listed so far.
Each instruction is offered one byte, whether it uses it or not. -/
structure Run where
  machine : Machine
  noise : Noise
  trace : Array TraceLine

namespace Run

def start (machine : Machine) (noise : Noise) : Run :=
  ⟨machine, noise, #[]⟩

/-- Lists the next instruction if the machine is to do so. -/
def listNext (r : Run) : Run :=
  match r.machine.toCore.trace? with
  | none => r
  | some line => { r with trace := r.trace.push line }

/-- Executes one instruction whatever the run state is. -/
def tick (r : Run) : Outcome Run Unit :=
  let listed := r.listNext
  let (machine, result) := listed.machine.tick listed.noise.next
  ({ listed with machine := machine, noise := listed.noise.rest }, result)

/-- Executes one instruction if the machine is running. Otherwise nothing is listed and no byte is
taken. -/
def step (r : Run) : Outcome Run RunState :=
  if r.machine.state = .running then
    let listed := r.listNext
    let (machine, result) := listed.machine.step listed.noise.next
    ({ listed with machine := machine, noise := listed.noise.rest }, result)
  else (r, .ok r.machine.state)

/-- Executes up to `n` instructions, fewer if the machine faults, pauses or was not running. -/
def multistep (r : Run) : Nat → Outcome Run RunState
  | 0 => (r, .ok r.machine.state)
  | n + 1 =>
    match r.step with
    | (next, .ok .running) => next.multistep n
    | stopped => stopped

end Run

end Chip8
