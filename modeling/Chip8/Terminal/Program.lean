import Chip8.Terminal.Command
import Chip8.Terminal.Setup

namespace Chip8.Terminal

inductive FileError where
  | notFound
  | isDirectory
  | notDirectory
  | nameTooLong
  | permissionDenied
  | other (code : Nat) (message : String)
deriving DecidableEq, Repr

namespace FileError

def code : FileError → Nat
  | notFound => 2
  | isDirectory => 21
  | notDirectory => 20
  | nameTooLong => 36
  | permissionDenied => 13
  | other code _ => code

def kind : FileError → String
  | notFound => "NotFound"
  | isDirectory => "IsADirectory"
  | notDirectory => "NotADirectory"
  | nameTooLong => "InvalidFilename"
  | permissionDenied => "PermissionDenied"
  | other _ _ => "Other"

def message : FileError → String
  | notFound => "No such file or directory"
  | isDirectory => "Is a directory"
  | notDirectory => "Not a directory"
  | nameTooLong => "File name too long"
  | permissionDenied => "Permission denied"
  | other _ message => message

def record (e : FileError) : String :=
  "IoError(" ++
    Text.record "Os"
      [("code", Text.decimal e.code), ("kind", e.kind), ("message", "\"" ++ e.message ++ "\"")] ++
    ")"

end FileError

inductive StartError where
  | usage (error : UsageError)
  | file (error : FileError)
  | machine (error : Error)
deriving DecidableEq, Repr

namespace StartError

/-- What the user is told, on the error channel. -/
def text : StartError → String
  | usage e => "chip8-term: " ++ e.message ++ "\n"
  | file e => "Error: " ++ e.record ++ "\n"
  | machine e => "Error: " ++ e.record ++ "\n"

/-- The exit code, which sets mistakes in the command line apart. -/
def exitCode : StartError → UInt32
  | usage _ => 2
  | file _ => 1
  | machine _ => 1

end StartError

/-- Everything that a run writes, and its exit code. -/
structure Transcript where
  code : UInt32
  output : String
  errors : String
deriving DecidableEq, Repr

namespace Transcript

/-- The texts of those notices that go to a channel. -/
def textOn (channel : Channel) (notices : List Notice) : String :=
  String.join ((notices.filter fun n => n.channel = channel).map Notice.text)

/-- The transcript of a run that began. A fault of the program does not change the exit code. -/
def ofNotices (notices : List Notice) : Transcript :=
  ⟨0, textOn .output notices, textOn .errors notices⟩

/-- The transcript of a run that did not begin, with what the user had been told by then. -/
def ofStartError (notices : List Notice) (e : StartError) : Transcript :=
  ⟨e.exitCode, textOn .output notices, textOn .errors notices ++ e.text⟩

end Transcript

/-- Runs a session to its end, and gives everything that the user is told. -/
def Session.transcript (s : Session) : List Notice :=
  let (ran, result) := s.runFrames s.frames
  (ran.conclude result).notices.toList

/-- The whole program on a command line, given what reading each file would give. -/
def transcript (arguments : List String) (readFile : String → Except FileError (List UInt8))
    (noise : Noise) : Transcript :=
  match Command.ofArguments arguments with
  | .error e => .ofStartError [] (.usage e)
  | .ok .help => ⟨0, "", helpText⟩
  | .ok (.run file options) =>
    match readFile file with
    | .error e => .ofStartError [] (.file e)
    | .ok rom =>
      match Session.setUp options rom noise with
      | (notices, .error e) => .ofStartError notices (.machine e)
      | (notices, .ok session) => .ofNotices (notices ++ session.transcript)

end Chip8.Terminal
