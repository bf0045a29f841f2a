import Chip8.Word

namespace Chip8.Terminal

/-- How a program is to be run. -/
structure Options where
  /-- Whether instructions are listed and the registers shown at the end. -/
  debug : Bool
  frames : Nat
  ipf : Nat
  rate : Nat
  realtime : Bool
  dump : Bool
  /-- The addresses to stop at, in the order given. -/
  breakpoints : List Word
  /-- The keys to hold down, in the order given. -/
  keys : List Nat
deriving DecidableEq, Repr

/-- Ten seconds at the usual speed. -/
def Options.default : Options where
  debug := false
  frames := 600
  ipf := 10
  rate := 60
  realtime := false
  dump := false
  breakpoints := []
  keys := []

end Chip8.Terminal
