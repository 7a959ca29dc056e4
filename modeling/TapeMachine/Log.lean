import TapeMachine.Run
import TapeMachine.Settings.Source

/-!
# The log

Besides its output and its diagnostics the program keeps a log of what it does.  Ignored settings
and unreadable files are warnings; everything else is for debugging and not shown unless asked for.
-/

namespace TapeMachine

inductive LogEvent where
  | preprocessed (instructions loops : Nat)
  | runStarting (tapeLength : Nat) (addressing : Addressing) (eof : EofPolicy)
  | runFinished (steps : Nat) (ok : Bool)
  | settingIgnored (ignored : IgnoredAssignment)
  | fileUnreadable (path : String) (reason : FileError)
  | fileLoaded (path : String)
  | configResolved (config : Config) (origin : String)
  deriving DecidableEq

namespace LogEvent

def isWarning : LogEvent → Bool
  | settingIgnored _ => true
  | fileUnreadable _ _ => true
  | _ => false

def addressingLabel : Addressing → String
  | .bounded => "Bounded"
  | .circular => "Circular"

def eofLabel : EofPolicy → String
  | .zero => "Zero"
  | .max => "Max"
  | .unchanged => "Unchanged"

def configText (config : Config) : String :=
  let length := config.tapeLength.val
  let addressing := addressingLabel config.addressing
  let eof := eofLabel config.eof
  s!"MachineConfig \x7b tape_length: {length}, addressing: {addressing}, eof: {eof} \x7d"

def message : LogEvent → String
  | preprocessed instructions loops =>
      s!"program preprocessed instructions={instructions} loops={loops}"
  | runStarting tapeLength addressing eof =>
      s!"run starting tape_length={tapeLength} mode={addressing.name} eof={eof.name}"
  | runFinished steps ok => s!"run finished steps={steps} ok={ok}"
  | settingIgnored ignored => ignored.message
  | fileUnreadable path reason => s!"failed to read {path}: {reason.message}"
  | fileLoaded path => s!"loaded config file path={path}"
  | configResolved config origin =>
      s!"resolved machine config config={configText config} origin={origin}"

def render (e : LogEvent) : String :=
  (if e.isWarning then "WARN " else "DEBUG ") ++ e.message

def ofProgram (p : Program) : List LogEvent :=
  [preprocessed p.size p.loopCount]

def ofReport (eof : EofPolicy) (r : Report) : List LogEvent :=
  [runStarting r.machine.tape.length r.machine.tape.addressing eof,
    runFinished r.machine.steps r.stopped.isNone]

def ofReading (r : Reading) : List LogEvent :=
  r.ignored.toList.map settingIgnored

def ofFileReading : Settings.Source.FileReading → List LogEvent
  | .absent => []
  | .unreadable path reason => [fileUnreadable path reason]
  | .loaded path reading => ofReading reading ++ [fileLoaded path]

end LogEvent

inductive Verbosity where
  | silent
  | warnings
  | all
  deriving DecidableEq

namespace Verbosity

/-- The verbosity for the name of a level. -/
def ofLevel? (level : String) : Option Verbosity :=
  match String.ofList (level.toList.map Char.toLower) with
  | "off" => some silent
  | "error" => some silent
  | "warn" => some warnings
  | "info" => some warnings
  | "debug" => some all
  | "trace" => some all
  | _ => none

/-- The verbosity that a filter asks for: a level, with or without the name of the program before
it.  Without a filter, warnings are shown. -/
def ofFilter (filter : Option String) : Verbosity :=
  match filter with
  | none => warnings
  | some text => (ofLevel? ((text.dropPrefix "bfrun=").toString)).getD warnings

def shows : Verbosity → LogEvent → Bool
  | silent, _ => false
  | warnings, event => event.isWarning
  | all, _ => true

def render (v : Verbosity) (log : List LogEvent) : String :=
  String.join ((log.filter v.shows).map fun event => event.render ++ "\n")

end Verbosity

end TapeMachine
