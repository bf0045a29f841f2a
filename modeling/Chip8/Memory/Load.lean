import Chip8.Error
import Chip8.Memory.Basic

namespace Chip8

namespace Memory

/-- Puts a font and a program into their regions, with zeros after each of them. A font that is too
long is reported before a program that is too long, and both before a region is cleared. -/
def load (m : Memory) (font program : List UInt8) : Outcome Memory Unit :=
  if Region.charset.size < font.length then
    (m, .error (.fontTooLarge font.length Region.charset.size))
  else if Region.program.size < program.length then
    (m, .error (.romTooLarge program.length Region.program.size))
  else
    let cleared := (m.clearRegion .charset).clearRegion .program
    let withFont := cleared.blit Region.charset.start font
    (withFont.blit Region.program.start program, .ok ())

/-- The two regions together are all of memory. -/
theorem getElem?_cleared (m : Memory) {addr : Nat} (haddr : addr < size) :
    ((m.clearRegion .charset).clearRegion .program).bytes[addr]? = some 0 := by
  simp only [clearRegion, getElem?_blit, Region.size, Region.start, Region.stop,
    List.length_replicate, List.getElem?_replicate]
  grind

/-- Nothing is left of what was in memory before. -/
theorem cleared_eq_zeroed (m : Memory) :
    (m.clearRegion .charset).clearRegion .program = zeroed := by
  apply ext_toList
  apply List.ext_getElem?
  intro addr
  rw [Vector.getElem?_toList, Vector.getElem?_toList]
  by_cases haddr : addr < size
  · rw [getElem?_cleared m haddr, zeroed, Vector.getElem?_replicate, if_pos haddr]
  · rw [Vector.getElem?_eq_none (Nat.not_lt.mp haddr),
      Vector.getElem?_eq_none (Nat.not_lt.mp haddr)]

/-- A load that has room for everything starts from empty memory. -/
theorem load_eq_blit (m : Memory) {font program : List UInt8}
    (hfont : font.length ≤ Region.charset.size) (hprogram : program.length ≤ Region.program.size) :
    m.load font program =
      ((zeroed.blit Region.charset.start font).blit Region.program.start program, .ok ()) := by
  rw [load, if_neg (Nat.not_lt.mpr hfont), if_neg (Nat.not_lt.mpr hprogram), cleared_eq_zeroed]

end Memory

end Chip8
