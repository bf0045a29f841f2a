namespace Chip8.Text

/-- Bold green on black, the look of a phosphor screen. Used for the picture and for the addresses
of a memory dump. -/
def phosphor (text : String) : String :=
  "\x1b[32;40;1m" ++ text ++ "\x1b[0m"

/-- Grey, for the parts of a trace line that frame the instruction. -/
def dim (text : String) : String :=
  "\x1b[90m" ++ text ++ "\x1b[39m"

/-- Bold red, for the fault that ended a run. -/
def alarm (text : String) : String :=
  "\x1b[31m\x1b[1m" ++ text ++ "\x1b[0m\x1b[39m"

end Chip8.Text
