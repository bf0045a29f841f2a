import Chip8.Terminal.Program

namespace Chip8.Terminal

/-- The number of a cause. Some calls report it with its sign turned around. -/
def errorNumber (code : UInt32) : Nat :=
  min code.toNat (-code).toNat

/-- The cause of a failed read. -/
def fileError : IO.Error → FileError
  | .noFileOrDirectory _ _ _ => .notFound
  | .permissionDenied _ _ _ => .permissionDenied
  | .inappropriateType _ code _ =>
    if errorNumber code = FileError.isDirectory.code then .isDirectory else .notDirectory
  | .invalidArgument _ code message =>
    if errorNumber code = FileError.nameTooLong.code then .nameTooLong
    else .other (errorNumber code) message
  | e => .other 0 (toString e)

/-- The bytes of a file. -/
def readProgram (file : String) : IO (Except FileError (List UInt8)) := do
  match ← (IO.FS.readBinFile file).toBaseIO with
  | .ok bytes => return .ok bytes.toList
  | .error e => return .error (fileError e)

/-- A source of random bytes that differs from run to run. -/
def freshNoise : IO Noise := do
  let bytes ← IO.getRandomBytes 8
  return .ofSeed (bytes.toList.foldl (fun seed b => seed * 256 + b.toUInt64) 0)

/-- Writes notices to their channels. -/
def play (notices : List Notice) : IO Unit := do
  for notice in notices do
    match notice.channel with
    | .output => IO.print notice.text
    | .errors => IO.eprint notice.text

/-- Writes what a session has told so far, which is then forgotten. -/
def playNotices (s : Session) : IO Session := do
  play s.notices.toList
  return { s with notices := #[] }

/-- The time that a frame takes, in nanoseconds. -/
def framePeriod (s : Session) : Nat :=
  1000000000 / s.rate + 1

/-- Sleeps until the frame that started at `since` has taken its time. -/
def waitForFrame (s : Session) (since : Nat) : IO Unit := do
  let elapsed := (← IO.monoNanosNow) - since
  IO.sleep (UInt32.ofNat ((framePeriod s - elapsed) / 1000000))

/-- Runs up to `n` frames and writes what each of them tells. In real time a frame starts only when
the one before, which started at `since`, has taken its time. -/
def playFrames (s : Session) (since : Nat) : Nat → IO (Session × Except Error Unit)
  | 0 => return (s, .ok ())
  | n + 1 => do
    if s.realtime then
      waitForFrame s since
    let (ran, ending) := s.frame
    let told ← playNotices ran
    match ending with
    | .completed => playFrames told (since + framePeriod s) n
    | .halted => return (told, .ok ())
    | .faulted e => return (told, .error e)

/-- Runs a session to its end. -/
def playSession (s : Session) : IO Unit := do
  let (ran, result) ← playFrames s (← IO.monoNanosNow) s.frames
  let _ ← playNotices (ran.conclude result)

/-- Reports why a run did not begin. -/
def refuse (e : StartError) : IO UInt32 := do
  IO.eprint e.text
  return e.exitCode

/-- Runs the program in a file. -/
def playFile (file : String) (options : Options) : IO UInt32 := do
  match ← readProgram file with
  | .error e => refuse (.file e)
  | .ok rom =>
    let (notices, result) := Session.setUp options rom (← freshNoise)
    play notices
    match result with
    | .error e => refuse (.machine e)
    | .ok session =>
      playSession session
      return 0

end Chip8.Terminal

open Chip8.Terminal in
/-- Runs a program on a machine without a window and prints the picture that it leaves behind. -/
def main (arguments : List String) : IO UInt32 := do
  match Command.ofArguments arguments with
  | .error e => refuse (.usage e)
  | .ok .help =>
    IO.eprint helpText
    return 0
  | .ok (.run file options) => playFile file options
