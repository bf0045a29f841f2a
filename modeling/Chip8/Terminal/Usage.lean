import Chip8.Text.Reading

namespace Chip8.Terminal

open Text

/-- Why the command line cannot be followed. An option is named as it was written. -/
inductive UsageError where
  | unrecognized (option : String)
  | missingArgument (option : String)
  | unexpectedArgument (option : String)
  | invalidArgument (option : String) (reason : NumberError)
  | unexpectedFree (argument : String)
  | missingFree
deriving DecidableEq, Repr

def quoted (text : String) : String :=
  "\x60" ++ text ++ "\x60"

def UsageError.message : UsageError → String
  | unrecognized option => "unrecognized option " ++ quoted option
  | missingArgument option => "missing argument to option " ++ quoted option
  | unexpectedArgument option => "option " ++ quoted option ++ " does not accept an argument"
  | invalidArgument option reason =>
    "invalid argument to option " ++ quoted option ++ ": " ++ reason.message
  | unexpectedFree argument => "unexpected free argument " ++ quoted argument
  | missingFree => "missing required free argument"

def helpText : String :=
  "Usage: chip8-term [OPTIONS]\n" ++
  "\n" ++
  "Positional arguments:\n" ++
  "  file             Load a ROM to run.\n" ++
  "\n" ++
  "Optional arguments:\n" ++
  "  -h, --help       Print this help message.\n" ++
  "  -d, --debug      Enable debug mode at startup.\n" ++
  "  -f, --frames N   Set the number of frames to run. (default: 600)\n" ++
  "  -i, --ipf IPF    Set the instructions-per-frame rate. (default: 10)\n" ++
  "  -r, --rate FR    Set the target framerate. (default: 60)\n" ++
  "  --realtime       Sleep between frames, to run in real time.\n" ++
  "  --dump           Print a hexdump of the ROM before running it.\n" ++
  "  -b, --break BP   Set breakpoints for the emulator to stop at.\n" ++
  "  -k, --press KEY  Hold down a key for the whole run.\n"

end Chip8.Terminal
