import TapeMachine.Settings.Value
import TapeMachine.Text.Quoted

/-!
# Layers of settings

The parameters of a machine come from several places, each of which may leave some of them open.  A
`Settings` is what one place says.  Laying one over another keeps the lower value wherever the upper
one is open, and what is open in the end has a default.

Files and the environment say what they say by assignments, a key and a text each.  An assignment
whose text is not a value for its key is ignored, and is remembered together with the reason.
-/

namespace TapeMachine

/-- Parameters of a machine, some of them open. -/
structure Settings where
  tapeLength : Option CellCount := none
  addressing : Option Addressing := none
  eof : Option EofPolicy := none
  deriving DecidableEq

/-- The keys of assignments.  Two of them are about the addressing mode. -/
inductive Key where
  | tapeLength
  | circular
  | addressing
  | eof
  deriving DecidableEq

namespace Key

def name : Key → String
  | tapeLength => "tape_length"
  | circular => "circular"
  | addressing => "addressing"
  | eof => "eof"

def ofName? : String → Option Key
  | "tape_length" => some tapeLength
  | "circular" => some circular
  | "addressing" => some addressing
  | "eof" => some eof
  | _ => none

@[simp] theorem ofName?_name (key : Key) : ofName? key.name = some key := by
  cases key <;> rfl

end Key

/-- A text given to a key, and the name of the place where it is given. -/
structure Assignment where
  origin : String
  key : Key
  value : String
  deriving DecidableEq

structure IgnoredAssignment where
  assignment : Assignment
  reason : ValueError
  deriving DecidableEq

def IgnoredAssignment.message (i : IgnoredAssignment) : String :=
  let origin := i.assignment.origin
  let key := i.assignment.key.name
  let value := Text.quote i.assignment.value
  let reason := i.reason.message
  s!"{origin}: invalid value for '{key}': {value} ({reason}); ignoring"

namespace Settings

def overlay (lower upper : Settings) : Settings where
  tapeLength := upper.tapeLength.or lower.tapeLength
  addressing := upper.addressing.or lower.addressing
  eof := upper.eof.or lower.eof

theorem overlay_assoc (a b c : Settings) :
    (a.overlay b).overlay c = a.overlay (b.overlay c) := by
  simp [overlay, Option.or_assoc]

/-- Fills what is open with the defaults. -/
def resolve (s : Settings) : Config where
  tapeLength := s.tapeLength.getD .default
  addressing := s.addressing.getD .bounded
  eof := s.eof.getD .zero

def assign (s : Settings) (key : Key) (value : String) : Except ValueError Settings :=
  match key with
  | .tapeLength =>
      match CellCount.parse value with
      | .ok count => .ok { s with tapeLength := some count }
      | .error reason => .error (.cellCount reason)
  | .circular => do
      let circular ← parseBool value
      return { s with addressing := some (if circular then .circular else .bounded) }
  | .addressing => do
      let addressing ← Addressing.parse value
      return { s with addressing := some addressing }
  | .eof => do
      let eof ← EofPolicy.parse value
      return { s with eof := some eof }

end Settings

/-- What a list of assignments says. -/
structure Reading where
  settings : Settings := {}
  ignored : Array IgnoredAssignment := #[]

namespace Reading

def push : Reading → Assignment → Reading
  | ⟨settings, ignored⟩, a =>
      match settings.assign a.key a.value with
      | .ok settings => ⟨settings, ignored⟩
      | .error reason => ⟨settings, ignored.push ⟨a, reason⟩⟩

/-- Takes in assignments one after another, so that later ones win. -/
def ofAssignments (assignments : List Assignment) : Reading :=
  assignments.foldl push {}

end Reading

end TapeMachine
