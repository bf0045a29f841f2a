import Chip8.Screen.Basic
import Chip8.Text.Record
import Chip8.Text.Style

namespace Chip8

open Text

namespace Screen

def glyph (lit : Bool) : Char :=
  if lit then '█' else ' '

/-- The picture as coloured lines, one for each row. -/
def render (s : Screen) : String :=
  String.join (s.rows.map fun row => phosphor (String.ofList (row.map glyph)) ++ "\n")

def record (s : Screen) : String :=
  Text.record "Screen"
    [("pixels", listing (s.pixels.toList.map truth)), ("width", decimal s.width),
      ("height", decimal s.height)]

end Screen

end Chip8
