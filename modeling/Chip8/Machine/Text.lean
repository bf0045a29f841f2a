import Chip8.Cpu.Text
import Chip8.Machine.Basic
import Chip8.Screen.Text

namespace Chip8

namespace Machine

def record (m : Machine) : String :=
  Text.record "Chip8"
    [("cpu", m.cpu.record), ("mem", m.mem.record), ("screen", m.screen.record),
      ("timers", m.timers.record), ("keypad", m.keypad.record), ("state", m.state.name)]

end Machine

end Chip8
