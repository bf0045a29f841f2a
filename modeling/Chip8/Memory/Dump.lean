import Chip8.Memory.Access
import Chip8.Text.Style

namespace Chip8

namespace Dump

def wordsPerLine : Nat := 8

/-- Bytes taken together in pairs, high byte first. A byte without a partner is a high byte. -/
def words : List UInt8 → List Word
  | [] => []
  | [high] => [Word.ofBytes high 0]
  | high :: low :: rest => Word.ofBytes high low :: words rest

/-- A line of a dump: the address in colour, then the words. -/
def line (addr : Nat) (data : List UInt8) : String :=
  Text.phosphor (Text.hex 6 addr) ++
    String.join ((words data).map fun w => " " ++ Text.hex 4 w.toNat) ++ "\n"

/-- The lines of a dump of `data`, whose first byte lies at `start`. -/
def lines (start : Nat) (data : List UInt8) : List String :=
  if h : data = [] then []
  else
    line start (data.take (2 * wordsPerLine)) ::
      lines (start + 2 * wordsPerLine) (data.drop (2 * wordsPerLine))
termination_by data.length
decreasing_by
  have hpos := List.length_pos_iff.mpr h
  simp only [wordsPerLine, List.length_drop]
  omega

/-- The dump of `data` as text, which is empty if there is nothing to show. -/
def text (start : Nat) (data : List UInt8) : String :=
  String.join (lines start data)

end Dump

namespace Memory

/-- The text of a span of memory. -/
def hexdump (m : Memory) (start stop : Nat) : Except Error String :=
  (m.slice start stop).map (Dump.text start)

/-- Prints the text of a span of memory, behind what was printed before. -/
def dump (m : Memory) (start stop : Nat) (printed : String) : Outcome String Unit :=
  match m.hexdump start stop with
  | .error e => (printed, .error e)
  | .ok text => (printed ++ text, .ok ())

end Memory

end Chip8
