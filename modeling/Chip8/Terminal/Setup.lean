import Chip8.Terminal.Session

namespace Chip8.Terminal

/-- Holds keys down one after the other, up to the first that does not exist. -/
def pressAll (k : Keypad) : List Nat → Outcome Keypad Unit
  | [] => (k, .ok ())
  | key :: rest =>
    match k.press key with
    | (pressed, .error e) => (pressed, .error e)
    | (pressed, .ok _) => pressAll pressed rest

/-- Prepares a machine with a program for a run: the listing and the breakpoints as asked for, and the
keys held down. -/
def prepare (o : Options) (loaded : Machine) : Outcome Machine Unit :=
  let cpu := o.breakpoints.foldl Cpu.setBreak { loaded.cpu with debug := o.debug }
  let (keypad, result) := pressAll loaded.keypad o.keys
  ({ loaded with cpu := cpu, keypad := keypad }, result)

/-- The session of a run on a prepared machine. At least one frame fits into a second. -/
def Session.start (o : Options) (machine : Machine) (noise : Noise) : Session where
  run := .start machine noise
  frames := o.frames
  ipf := o.ipf
  rate := max 1 o.rate
  realtime := o.realtime
  debug := o.debug
  notices := #[]

/-- Tells the user the dump of the program as it lies in memory, if it is wanted. -/
def programDump (o : Options) (size : Nat) (m : Memory) : Outcome (List Notice) Unit :=
  if o.dump then
    let (printed, result) := m.dump Region.program.start (Region.program.start + size) ""
    ([.dump printed], result)
  else ([], .ok ())

/-- Sets up a session for a program. The first part is what the user is told even if the second
fails: a key that does not exist is noticed only after the dump. -/
def Session.setUp (o : Options) (rom : List UInt8) (noise : Noise) :
    Outcome (List Notice) Session :=
  match Machine.standard.loadProgram rom with
  | (_, .error e) => ([], .error e)
  | (loaded, .ok ()) =>
    match programDump o rom.length loaded.mem with
    | (notices, .error e) => (notices, .error e)
    | (notices, .ok ()) =>
      let (machine, result) := prepare o loaded
      (notices, result.map fun () => .start o machine noise)

end Chip8.Terminal
