import TapeMachine.Machine
import TapeMachine.Proofs.OpenLoops

/-!
# Actions

Six of the instructions do not steer the machine.  Each of these actions takes the tape and the
streams to a new tape and the rest of the streams, or runs into an obstacle, and knows nothing of
addresses and loops.  What the machine does with such an instruction is to carry out the effect of
the action where it stands.
-/

namespace TapeMachine

/-- An instruction after which the next one follows. -/
inductive Action where
  | moveRight
  | moveLeft
  | increment
  | decrement
  | output
  | input
  deriving DecidableEq

/-- What keeps an action from being completed, wherever it stands. -/
inductive Obstacle where
  | edge (pointer : Int)
  | stream (error : StreamError)
  deriving DecidableEq

def Obstacle.faultAt (address : Nat) : Obstacle → Fault
  | edge pointer => .pointerOutOfRange address pointer
  | stream e => .stream address e

/-- What an action makes of the tape and the streams. -/
structure Effect where
  result : Except Obstacle Tape
  streams : Streams
  events : List Event := []

namespace Action

def toInstruction : Action → Instruction
  | moveRight => .moveRight
  | moveLeft => .moveLeft
  | increment => .increment
  | decrement => .decrement
  | output => .output
  | input => .input

theorem toInstruction_injective {action action' : Action}
    (h : action.toInstruction = action'.toInstruction) : action = action' := by
  cases action <;> cases action' <;> first | rfl | contradiction

theorem openBehind_eq (action : Action) (loops : List Nat) (address : Nat) :
    LoopScan.openBehind loops address action.toInstruction = loops := by
  cases action <;> rfl

def perform (eof : EofPolicy) (tape : Tape) (s : Streams) : Action → Effect
  | moveRight => { result := tape.moveRight.mapError .edge, streams := s }
  | moveLeft => { result := tape.moveLeft.mapError .edge, streams := s }
  | increment => { result := .ok tape.increment, streams := s }
  | decrement => { result := .ok tape.decrement, streams := s }
  | output =>
      match s.write tape.get with
      | ⟨.ok (), s, events⟩ => { result := .ok tape, streams := s, events }
      | ⟨.error e, s, events⟩ => { result := .error (.stream e), streams := s, events }
  | input =>
      match s.flush with
      | ⟨.error e, s, events⟩ => { result := .error (.stream e), streams := s, events }
      | ⟨.ok (), s, flushed⟩ =>
          match s.read with
          | ⟨.error e, s, events⟩ =>
              { result := .error (.stream e), streams := s, events := flushed ++ events }
          | ⟨.ok read, s, events⟩ =>
              { result := .ok (Machine.store eof read tape), streams := s
                events := flushed ++ events }

end Action

theorem Instruction.action_or_loop (i : Instruction) :
    (∃ action : Action, i = action.toInstruction) ∨ i = .loopStart ∨ i = .loopEnd := by
  cases i with
  | moveRight => exact .inl ⟨.moveRight, rfl⟩
  | moveLeft => exact .inl ⟨.moveLeft, rfl⟩
  | increment => exact .inl ⟨.increment, rfl⟩
  | decrement => exact .inl ⟨.decrement, rfl⟩
  | output => exact .inl ⟨.output, rfl⟩
  | input => exact .inl ⟨.input, rfl⟩
  | loopStart => exact .inr (.inl rfl)
  | loopEnd => exact .inr (.inr rfl)

namespace Machine

def advance (m : Machine) (tape : Tape) : Machine :=
  { m with tape, address := m.address + 1, steps := m.steps + 1 }

/-- What the effect of an action means for the machine that performed it. -/
def carryOut (m : Machine) : Effect → Attempt
  | ⟨.ok tape, s, events⟩ => { machine := m.advance tape, streams := s, events }
  | ⟨.error obstacle, s, events⟩ =>
      { machine := m, streams := s, events, fault := some (obstacle.faultAt m.address) }

theorem fault_carryOut {m : Machine} {effect : Effect} {fault : Fault}
    (h : (m.carryOut effect).fault = some fault) :
    ∃ obstacle, effect.result = .error obstacle ∧ fault = obstacle.faultAt m.address := by
  obtain ⟨obstacle | tape, s, events⟩ := effect
  · exact ⟨obstacle, rfl, (Option.some.inj h).symm⟩
  · contradiction

theorem execute_toInstruction (p : Program) (eof : EofPolicy) (m : Machine) (s : Streams)
    (action : Action) :
    m.execute p eof s action.toInstruction = m.carryOut (action.perform eof m.tape s) := by
  obtain ⟨tape, loops, address, steps⟩ := m
  cases action with
  | moveRight =>
      simp only [Action.toInstruction, execute, move, Action.perform]
      cases tape.moveRight <;> rfl
  | moveLeft =>
      simp only [Action.toInstruction, execute, move, Action.perform]
      cases tape.moveLeft <;> rfl
  | increment => rfl
  | decrement => rfl
  | output =>
      simp only [Action.toInstruction, execute, output, Action.perform]
      rcases s.write tape.get with ⟨_ | _, _, _⟩ <;> rfl
  | input =>
      simp only [Action.toInstruction, execute, input, Action.perform]
      rcases s.flush with ⟨_ | _, s, _⟩
      · rfl
      · dsimp only
        rcases s.read with ⟨_ | _, _, _⟩ <;> rfl

end Machine

end TapeMachine
