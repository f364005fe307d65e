/-
# The command on a machine

Takes the steps of a run (`Command.afterReading`, `Command.afterWriting`) with
the files, the standard input and the standard output of the machine.
-/
import SyntaxGraph.Command.Run

namespace SyntaxGraph
namespace Command

/-- The code of an error of the machine, and what it says. Some come without a
code. -/
def codeAndDetails? : IO.Error → Option (UInt32 × String)
  | .alreadyExists _ code details | .otherError code details | .resourceBusy code details
  | .resourceVanished code details | .unsupportedOperation code details
  | .hardwareFault code details | .unsatisfiedConstraints code details
  | .illegalOperation code details | .protocolError code details | .timeExpired code details
  | .interrupted _ code details | .noFileOrDirectory _ code details
  | .invalidArgument _ code details | .permissionDenied _ code details
  | .resourceExhausted _ code details | .inappropriateType _ code details
  | .noSuchThing _ code details => some (code, details)
  | .unexpectedEof | .userError _ => none

/-- The fault that an error of the machine amounts to. Its code comes with
either sign. -/
def Fault.ofError (e : IO.Error) : Fault :=
  match codeAndDetails? e with
  | none => .other e.toString
  | some (code, details) =>
    match code.toInt32.toInt.natAbs with
    | 2 => .notFound
    | 13 => .denied
    | 20 => .notDirectory
    | 21 => .isDirectory
    | 36 => .nameTooLong
    | n => .other (details ++ " (os error " ++ Decimal.natText n ++ ")")

/-- The result of an action, or the fault that stopped it. -/
def attempt {α : Type} (action : IO α) : IO (Except Fault α) := do
  try return .ok (← action) catch e => return .error (.ofError e)

/-- The bytes of a source. -/
def fetch : Source → IO (Except Fault ByteArray)
  | .standardInput => do
    let stdin ← IO.getStdin
    attempt stdin.readBinToEnd
  | .file path => attempt (IO.FS.readBinFile path)

/-- Writes a file, down to the machine. -/
def store (w : Writing) : IO (Except Fault Unit) :=
  attempt (IO.FS.withFile w.path .write fun file => do
    file.write w.contents.toUTF8
    file.flush)

/-- Shows what a run has to show, and gives its exit code. -/
def Report.show (r : Report) : IO UInt32 := do
  (← IO.getStdout).putStr r.stdout
  (← IO.getStderr).putStr r.stderr
  return r.code.toUInt32

/-- A run with these options. -/
def performOnMachine (o : Options) : IO UInt32 := do
  let progress := afterReading o (← fetch (source o))
  match progress.writing with
  | none => progress.report.show
  | some w =>
    (afterWriting o progress.report w (← store w)).show

end Command
end SyntaxGraph

/-- The command. -/
def main (arguments : List String) : IO UInt32 :=
  match SyntaxGraph.Command.Options.ofArguments arguments with
  | .error stop => stop.report.show
  | .ok o => SyntaxGraph.Command.performOnMachine o
