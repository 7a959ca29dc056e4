import TapeMachine.Config
import TapeMachine.Program

/-!
# The machine

The state of a machine is its tape, the address of the next instruction, the addresses of the loops
being repeated and the number of instructions executed.  `Machine.execute` carries out one
instruction.  If the instruction fails, the machine is left as it was before it, so a later run can
try it again; only stream calls that were already made stay made.

A loop start on a zero cell jumps to its partner in the loop table.  A loop end never uses the
table: it goes back to the innermost loop being repeated.
-/

namespace TapeMachine

/-- The state of a machine between two instructions. -/
structure Machine where
  tape : Tape
  /-- The loop starts of the loops being repeated, the innermost first. -/
  loops : List Nat := []
  address : Nat := 0
  /-- The number of instructions executed.  It is taken to stay below 2^64, so that a word of 64
  bits could count it. -/
  steps : Nat := 0
  deriving DecidableEq

/-- What attempting one instruction leads to. -/
structure Attempt where
  machine : Machine
  streams : Streams
  events : List Event := []
  fault : Option Fault := none

namespace Machine

def new (config : Config) : Except Fault Machine :=
  match Tape.allocate? config.tapeLength config.addressing with
  | some tape => .ok { tape }
  | none => .error (.tapeAllocation config.tapeLength.val)

/-- Counts an instruction as executed and goes on at `address`. -/
def proceedAt (m : Machine) (address : Nat) : Machine :=
  { m with address, steps := m.steps + 1 }

/-- Counts an instruction as executed and goes on behind it. -/
def proceed (m : Machine) : Machine :=
  m.proceedAt (m.address + 1)

/-- Changes the tape and goes on.  The parts of the machine are named so that nothing else refers
to the tape while it changes, which lets its cells be updated in place. -/
def proceedWith : Machine → (Tape → Tape) → Machine
  | ⟨tape, loops, address, steps⟩, change => ⟨change tape, loops, address + 1, steps + 1⟩

/-- What an input instruction makes of the tape. -/
def store (eof : EofPolicy) (read : Option UInt8) (tape : Tape) : Tape :=
  match read.or eof.stored? with
  | some value => tape.set value
  | none => tape

def move (m : Machine) (s : Streams) (moved : Except Int Tape) : Attempt :=
  match moved with
  | .ok tape => { machine := m.proceedWith fun _ => tape, streams := s }
  | .error pointer =>
      { machine := m, streams := s, fault := some (.pointerOutOfRange m.address pointer) }

def output (m : Machine) (s : Streams) : Attempt :=
  match s.write m.tape.get with
  | ⟨.ok (), s, events⟩ => { machine := m.proceed, streams := s, events }
  | ⟨.error e, s, events⟩ =>
      { machine := m, streams := s, events, fault := some (.stream m.address e) }

/-- Flushes the output, so that a waiting reader has seen all of it, and reads into the current
cell. -/
def input (eof : EofPolicy) (m : Machine) (s : Streams) : Attempt :=
  match s.flush with
  | ⟨.error e, s, events⟩ =>
      { machine := m, streams := s, events, fault := some (.stream m.address e) }
  | ⟨.ok (), s, flushed⟩ =>
      match s.read with
      | ⟨.error e, s, events⟩ =>
          { machine := m, streams := s, events := flushed ++ events
            fault := some (.stream m.address e) }
      | ⟨.ok read, s, events⟩ =>
          { machine := m.proceedWith (store eof read), streams := s
            events := flushed ++ events }

/-- Enters the loop that starts here, or skips it if the current cell is zero. -/
def enterLoop (p : Program) (m : Machine) (s : Streams) : Attempt :=
  if m.tape.get = 0 then
    match p.jumpTarget? m.address with
    | some target => { machine := m.proceedAt (target + 1), streams := s }
    | none => { machine := m, streams := s, fault := some (.unmatchedLoopStart m.address) }
  else
    { machine := { m with loops := m.address :: m.loops }.proceed, streams := s }

/-- Leaves the innermost loop if the current cell is zero, or else repeats its body. -/
def closeLoop (m : Machine) (s : Streams) : Attempt :=
  match m.loops with
  | [] => { machine := m, streams := s, fault := some (.unmatchedLoopEnd m.address) }
  | start :: outer =>
      if m.tape.get = 0 then
        { machine := { m with loops := outer }.proceed, streams := s }
      else
        { machine := m.proceedAt (start + 1), streams := s }

def execute (p : Program) (eof : EofPolicy) (m : Machine) (s : Streams) :
    Instruction → Attempt
  | .moveRight => m.move s m.tape.moveRight
  | .moveLeft => m.move s m.tape.moveLeft
  | .increment => { machine := m.proceedWith Tape.increment, streams := s }
  | .decrement => { machine := m.proceedWith Tape.decrement, streams := s }
  | .output => m.output s
  | .input => m.input eof s
  | .loopStart => m.enterLoop p s
  | .loopEnd => m.closeLoop s

/-- Attempts the next instruction; `none` at the end of the program. -/
@[inline]
def step? (p : Program) (eof : EofPolicy) (m : Machine) (s : Streams) : Option Attempt :=
  p.code[m.address]?.map (m.execute p eof s)

end Machine

end TapeMachine
