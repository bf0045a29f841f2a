import Chip8.Terminal.Usage

namespace Chip8.Terminal

inductive Switch where
  | help
  | debug
  | realtime
  | dump
deriving DecidableEq, Repr

inductive Setting where
  | frames
  | ipf
  | rate
  | breakpoint
  | key
deriving DecidableEq, Repr

inductive Role where
  | switch (s : Switch)
  | setting (s : Setting)
deriving DecidableEq, Repr

def shortRole? : Char → Option Role
  | 'h' => some (.switch .help)
  | 'd' => some (.switch .debug)
  | 'f' => some (.setting .frames)
  | 'i' => some (.setting .ipf)
  | 'r' => some (.setting .rate)
  | 'b' => some (.setting .breakpoint)
  | 'k' => some (.setting .key)
  | _ => none

/-- The options by their long names, which cannot be shortened. -/
def longRole? : String → Option Role
  | "help" => some (.switch .help)
  | "debug" => some (.switch .debug)
  | "frames" => some (.setting .frames)
  | "ipf" => some (.setting .ipf)
  | "rate" => some (.setting .rate)
  | "realtime" => some (.switch .realtime)
  | "dump" => some (.switch .dump)
  | "break" => some (.setting .breakpoint)
  | "press" => some (.setting .key)
  | _ => none

/-- The command line in units of meaning. A fault stands at the place where the command line stops
making sense. -/
inductive Token where
  | switch (s : Switch)
  | setting (s : Setting) (option value : String)
  | free (argument : String)
  | fault (error : UsageError)
deriving DecidableEq, Repr

/-- The letters of an argument with one dash, each an option. The first option with a value takes
the other letters for it; if there are none, the next argument has to provide the value. -/
def Token.ofLetters : List Char → List Token × Option (Setting × String)
  | [] => ([], none)
  | letter :: rest =>
    let option := "-" ++ String.singleton letter
    match shortRole? letter with
    | none => ([.fault (.unrecognized option)], none)
    | some (.switch s) =>
      let (tokens, pending) := ofLetters rest
      (.switch s :: tokens, pending)
    | some (.setting s) =>
      match rest with
      | [] => ([], some (s, option))
      | value => ([.setting s option (String.ofList value)], none)

/-- An argument with two dashes. A value may follow its name after an equals sign; otherwise an
option with a value takes the next argument. -/
def Token.ofLong (text : List Char) : List Token × Option (Setting × String) :=
  let name := String.ofList (text.takeWhile (· != '='))
  let option := "--" ++ name
  match longRole? name, text.dropWhile (· != '=') with
  | none, _ => ([.fault (.unrecognized option)], none)
  | some (.switch s), [] => ([.switch s], none)
  | some (.switch _), _ :: _ => ([.fault (.unexpectedArgument option)], none)
  | some (.setting s), [] => ([], some (s, option))
  | some (.setting s), _ :: value => ([.setting s option (String.ofList value)], none)

/-- One argument, and the option that waits for the next argument if there is one. A dash alone is
not an option. -/
def Token.ofArgument (argument : String) : List Token × Option (Setting × String) :=
  match argument.toList with
  | '-' :: '-' :: text => ofLong text
  | '-' :: letter :: letters => ofLetters (letter :: letters)
  | _ => ([.free argument], none)

/-- The tokens of a command line. After two dashes alone no argument is an option, and an option that
waits for a value takes the next argument whatever it looks like. -/
def Token.ofArguments : List String → List Token
  | [] => []
  | argument :: rest =>
    if argument = "--" then rest.map .free
    else
      match ofArgument argument, rest with
      | (tokens, none), rest => tokens ++ ofArguments rest
      | (tokens, some (_, option)), [] => tokens ++ [.fault (.missingArgument option)]
      | (tokens, some (s, option)), value :: rest =>
        tokens ++ .setting s option value :: ofArguments rest

end Chip8.Terminal
