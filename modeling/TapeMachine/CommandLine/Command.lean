import TapeMachine.CommandLine.Arguments
import TapeMachine.CommandLine.Usage
import TapeMachine.Diagnostic
import TapeMachine.Log

/-!
# The command

A call of the command either ends before anything runs, with an exit status and a message, or it
leads to a job: a program, and a machine that is ready to run it.  When the machine has stopped, its
report decides the exit status.  `run` puts these together for streams that are given beforehand.
-/

namespace TapeMachine.CommandLine

structure Ending where
  status : Nat
  log : List LogEvent := []
  message : String := ""

structure Job where
  origin : String
  source : String
  config : Config
  program : Program
  machine : Machine
  log : List LogEvent

/-- The first line of a text, with a newline. -/
def firstLine (text : String) : String :=
  String.ofList (text.toList.takeWhile (· ≠ '\n')) ++ "\n"

/-- The source text that the arguments ask for, and its name in messages.  A program file need not
be a well-formed text, since only comments can be ill-formed. -/
def findSource (host : Host) (a : Arguments) : Except Ending (String × String) :=
  match a.code, a.file with
  | some code, _ => .ok ("<code>", code)
  | none, some path =>
      match host.file path with
      | .ok bytes => .ok (path, Text.Utf8.decodeLossy bytes)
      | .error (.other reason) =>
          .error { status := 1, message := s!"{programName}: failed to read {path}: {reason}\n" }
      | .error _ => .error { status := 1, message := s!"{programName}: file not found: {path}\n" }
  | none, none => .error { status := 2, message := usage }

/-- Everything between the arguments and the first instruction. -/
def prepare (host : Host) (a : Arguments) : Except Ending Job := do
  if a.help then throw { status := 0, message := usage }
  let (origin, source) ← findSource host a
  let file := Settings.Source.fileReading host
  let environment := Settings.Source.environmentReading host
  let config := Settings.Source.resolve file environment a.settings
  let log := LogEvent.ofFileReading file ++ LogEvent.ofReading environment ++
    [.configResolved config origin]
  match Program.parse source with
  | .error fault =>
      throw { status := 1, log, message := Diagnostic.render origin source fault false }
  | .ok program =>
      let log := log ++ LogEvent.ofProgram program
      match Machine.new config with
      | .error fault =>
          throw { status := 1, log, message := Diagnostic.render origin source fault false }
      | .ok machine => return { origin, source, config, program, machine, log }

def start (host : Host) (texts : List String) : Except Ending Job :=
  match Arguments.parse texts with
  | .ok a => prepare host a
  | .error e => .error { status := 2, message := firstLine s!"error: {e.message}" }

/-- The end of a call whose machine has stopped. -/
def Job.conclude (job : Job) (report : Report) : Ending :=
  let log := job.log ++ LogEvent.ofReport job.config.eof report
  match report.fault with
  | none => { status := 0, log }
  | some fault =>
      { status := 1, log, message := Diagnostic.render job.origin job.source fault false }

def Ending.errors (host : Host) (ending : Ending) : String :=
  (Verbosity.ofFilter (host.text? "BFRUN_LOG")).render ending.log ++ ending.message

/-- What a call of the command leaves behind. -/
structure Response where
  ending : Ending
  output : List UInt8 := []

/-- The rest of a call, on the given input; `none` if `fuel` instructions are not enough. -/
def respond (fuel : Nat) (input : List UInt8) : Except Ending Job → Option Response
  | .error ending => some { ending }
  | .ok job =>
      (job.machine.run job.program job.config.eof fuel (.ofInput input)).map fun report =>
        { ending := job.conclude report, output := report.output }

def runArguments (fuel : Nat) (host : Host) (a : Arguments) (input : List UInt8) :
    Option Response :=
  respond fuel input (prepare host a)

def run (fuel : Nat) (host : Host) (texts : List String) (input : List UInt8) : Option Response :=
  respond fuel input (start host texts)

end TapeMachine.CommandLine
