import TapeMachine.Log

/-!
# Running source texts

The whole way from a source text to the end of its run on a machine made for it.
-/

namespace TapeMachine

/-- What a source text leads to. -/
structure Outcome where
  /-- The machine at the end, or what went wrong. -/
  result : Except Fault Machine
  events : List Event := []
  log : List LogEvent := []

namespace Outcome

def output (o : Outcome) : List UInt8 :=
  o.events.filterMap Event.delivered?

def ofReport (program : Program) (eof : EofPolicy) (r : Report) : Outcome where
  result :=
    match r.fault with
    | none => .ok r.machine
    | some fault => .error fault
  events := r.events
  log := LogEvent.ofProgram program ++ LogEvent.ofReport eof r

end Outcome

/-- Runs a source text; `none` if `fuel` instructions are not enough. -/
def interpret (fuel : Nat) (source : String) (config : Config) (streams : Streams) :
    Option Outcome :=
  match Program.parse source with
  | .error fault => some { result := .error fault }
  | .ok program =>
      match Machine.new config with
      | .error fault => some { result := .error fault, log := LogEvent.ofProgram program }
      | .ok machine =>
          (machine.run program config.eof fuel streams).map (Outcome.ofReport program config.eof)

end TapeMachine
