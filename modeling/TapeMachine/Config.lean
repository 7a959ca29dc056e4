import TapeMachine.Tape

/-!
# Parameters of a machine

Three parameters are fixed while a machine runs: the length of its tape, what happens at the ends of
the tape, and what happens at the end of the input.
-/

namespace TapeMachine

/-- What an input instruction stores when the input has ended. -/
inductive EofPolicy where
  | zero
  | max
  | unchanged
  deriving DecidableEq

namespace EofPolicy

def name : EofPolicy → String
  | zero => "zero"
  | max => "max"
  | unchanged => "unchanged"

/-- The value stored at the end of the input, if anything is stored. -/
def stored? : EofPolicy → Option UInt8
  | zero => some 0
  | max => some 255
  | unchanged => none

end EofPolicy

structure Config where
  tapeLength : CellCount := .default
  addressing : Addressing := .bounded
  eof : EofPolicy := .zero
  deriving DecidableEq

end TapeMachine
