import TapeMachine.Stream

/-!
# Faults

Everything that can keep a program from running to its end.  A fault names the address of the
instruction at which the machine stopped, except when there was no machine yet.
-/

namespace TapeMachine

inductive Fault where
  /-- A loop start without a partner; found before anything runs. -/
  | unmatchedLoopStart (address : Nat)
  /-- A loop end met while no loop is open. -/
  | unmatchedLoopEnd (address : Nat)
  /-- The cell pointer would have left a bounded tape. -/
  | pointerOutOfRange (address : Nat) (pointer : Int)
  /-- A stream call failed. -/
  | stream (address : Nat) (error : StreamError)
  /-- There is no memory for the tape; found before anything runs. -/
  | tapeAllocation (length : Nat)
  deriving DecidableEq

namespace Fault

def message : Fault → String
  | unmatchedLoopStart address => s!"unmatched '[' at instruction {address}"
  | unmatchedLoopEnd address => s!"unmatched ']' at instruction {address}"
  | pointerOutOfRange address pointer =>
      s!"pointer out of range at instruction {address} (ptr={pointer})"
  | stream address error => s!"I/O error at instruction {address}: {error.text}"
  | tapeAllocation length => s!"cannot allocate a tape of {length} cells"

def kindText : Fault → String
  | unmatchedLoopStart _ => "unmatched loop start"
  | unmatchedLoopEnd _ => "unmatched loop end"
  | pointerOutOfRange _ _ => "pointer out of range"
  | stream _ _ => "i/o failure"
  | tapeAllocation _ => "tape allocation failure"

/-- The address of the faulting instruction, if the machine got that far. -/
def address? : Fault → Option Nat
  | unmatchedLoopStart address => some address
  | unmatchedLoopEnd address => some address
  | pointerOutOfRange address _ => some address
  | stream address _ => some address
  | tapeAllocation _ => none

/-- The cell pointer that was asked for and does not exist. -/
def pointer? : Fault → Option Int
  | pointerOutOfRange _ pointer => some pointer
  | _ => none

end Fault

end TapeMachine
