import TapeMachine.Proofs.FaultCause

/-!
# The calls of an instruction

Which calls an output or an input instruction makes, as a grammar: the calls with the result that
they lead to.  A call is made again only when it was interrupted, and nothing is read that was not
preceded by a flush which succeeded.  Every other instruction leaves the streams alone.

The scripts are used up by the calls and by nothing else: `Streams.Answers`.
-/

namespace TapeMachine

/-- The calls that output a byte: interrupted writes, and then one that is not interrupted. -/
inductive OutputCalls (value : UInt8) : List Event → Except StreamError Unit → Prop where
  | again {e : StreamError} {calls : List Event} {result : Except StreamError Unit}
      (hi : e.isInterruption) (h : OutputCalls value calls result) :
      OutputCalls value (.write value (.failure e) :: calls) result
  | accepted : OutputCalls value [.write value .accepted] (.ok ())
  | refused : OutputCalls value [.write value .refused] (.error .nothingWritten)
  | failed {e : StreamError} (hi : ¬ e.isInterruption) :
      OutputCalls value [.write value (.failure e)] (.error e)

/-- The calls that read a byte: interrupted reads, and then one that is not interrupted. -/
inductive ReadCalls : List Event → Except StreamError (Option UInt8) → Prop where
  | again {e : StreamError} {calls : List Event} {result : Except StreamError (Option UInt8)}
      (hi : e.isInterruption) (h : ReadCalls calls result) :
      ReadCalls (.read (.failure e) :: calls) result
  | byte (value : UInt8) : ReadCalls [.read (.byte value)] (.ok (some value))
  | endOfInput : ReadCalls [.read .endOfInput] (.ok none)
  | failed {e : StreamError} (hi : ¬ e.isInterruption) :
      ReadCalls [.read (.failure e)] (.error e)

/-- The calls of an input instruction: one flush, and behind it the reads if it succeeded. -/
inductive InputCalls : List Event → Except StreamError (Option UInt8) → Prop where
  | unflushed (e : StreamError) : InputCalls [.flush (.failure e)] (.error e)
  | flushed {calls : List Event} {result : Except StreamError (Option UInt8)}
      (h : ReadCalls calls result) : InputCalls (.flush .done :: calls) result

namespace Event

/-- What is accepted but not flushed behind a call. -/
def hold (pending : List UInt8) : Event → List UInt8
  | .flush .done => []
  | call => pending ++ call.delivered?.toList

/-- What is accepted but not flushed behind these calls, if `pending` was so before them. -/
def unflushed (pending : List UInt8) (calls : List Event) : List UInt8 :=
  calls.foldl hold pending

/-- At every read among these calls nothing is left to be flushed. -/
def ReadsFlushed : (pending : List UInt8) → List Event → Prop
  | _, [] => True
  | pending, call :: calls =>
      ((∃ outcome, call = .read outcome) → pending = []) ∧ ReadsFlushed (call.hold pending) calls

theorem readsFlushed_append {pending : List UInt8} {calls more : List Event} :
    ReadsFlushed pending (calls ++ more) ↔
      ReadsFlushed pending calls ∧ ReadsFlushed (unflushed pending calls) more := by
  induction calls generalizing pending with
  | nil => exact ⟨fun h => ⟨trivial, h⟩, fun h => h.2⟩
  | cons call calls ih => rw [List.cons_append, ReadsFlushed, ReadsFlushed, ih, and_assoc]; rfl

theorem ReadsFlushed.unflushed_eq_nil {pending : List UInt8} {before after : List Event}
    {outcome : ReadOutcome} (h : ReadsFlushed pending (before ++ .read outcome :: after)) :
    unflushed pending before = [] :=
  (readsFlushed_append.1 h).2.1 ⟨outcome, rfl⟩

end Event

/-- The streams answer each of these calls from their scripts, in order, and become `s'`. -/
inductive Streams.Answers : Streams → List Event → Streams → Prop where
  | done (s : Streams) : Answers s [] s
  | read {s s' : Streams} {calls : List Event}
      (h : Answers { s with reads := s.reads.tail } calls s') :
      Answers s (.read (s.reads.headD .endOfInput) :: calls) s'
  | write {s s' : Streams} {calls : List Event} (value : UInt8)
      (h : Answers { s with writes := s.writes.tail } calls s') :
      Answers s (.write value (s.writes.headD .accepted) :: calls) s'
  | flush {s s' : Streams} {calls : List Event}
      (h : Answers { s with flushes := s.flushes.tail } calls s') :
      Answers s (.flush (s.flushes.headD .done) :: calls) s'

section Grammar

variable {value : UInt8} {calls : List Event}

theorem OutputCalls.delivered_eq {result : Except StreamError Unit}
    (h : OutputCalls value calls result) :
    calls.filterMap Event.delivered? = Streams.deliveredOf value result := by
  induction h with
  | again hi h ih => exact ih
  | accepted => rfl
  | refused => rfl
  | failed hi => rfl

theorem OutputCalls.readsFlushed {result : Except StreamError Unit}
    (h : OutputCalls value calls result) (pending : List UInt8) :
    Event.ReadsFlushed pending calls := by
  induction h generalizing pending with
  | again hi h ih => exact ⟨by simp, ih _⟩
  | accepted | refused | failed => exact ⟨by simp, trivial⟩

variable {result : Except StreamError (Option UInt8)}

theorem ReadCalls.received_eq (h : ReadCalls calls result) :
    calls.filterMap Event.received? = Streams.receivedOf result := by
  induction h with
  | again hi h ih => exact ih
  | byte value => rfl
  | endOfInput => rfl
  | failed hi => rfl

theorem InputCalls.received_eq (h : InputCalls calls result) :
    calls.filterMap Event.received? = Streams.receivedOf result := by
  cases h with
  | unflushed e => rfl
  | flushed h => exact h.received_eq

theorem ReadCalls.readsFlushed (h : ReadCalls calls result) : Event.ReadsFlushed [] calls := by
  induction h with
  | again hi h ih => exact ⟨fun _ => rfl, ih⟩
  | byte | endOfInput | failed => exact ⟨fun _ => rfl, trivial⟩

theorem InputCalls.readsFlushed (h : InputCalls calls result) (pending : List UInt8) :
    Event.ReadsFlushed pending calls := by
  cases h with
  | unflushed e => exact ⟨by simp, trivial⟩
  | flushed h => exact ⟨by simp, h.readsFlushed⟩

end Grammar

namespace Streams

theorem outputCalls_writeTo (value : UInt8) (script : List WriteOutcome) :
    OutputCalls value (writeTo value script).2.2 (writeTo value script).1 := by
  induction script with
  | nil => exact .accepted
  | cons outcome rest ih =>
      cases outcome with
      | accepted => exact .accepted
      | refused => exact .refused
      | failure e =>
          by_cases hi : e.isInterruption
          · rw [writeTo_interrupted hi]
            exact .again hi ih
          · rw [writeTo_failure hi]
            exact .failed hi

theorem readCalls_readFrom (script : List ReadOutcome) :
    ReadCalls (readFrom script).2.2 (readFrom script).1 := by
  induction script with
  | nil => exact .endOfInput
  | cons outcome rest ih =>
      cases outcome with
      | byte value => exact .byte value
      | endOfInput => exact .endOfInput
      | failure e =>
          by_cases hi : e.isInterruption
          · rw [readFrom_interrupted hi]
            exact .again hi ih
          · rw [readFrom_failure hi]
            exact .failed hi

theorem Answers.append {s s' s'' : Streams} {calls more : List Event} (h : s.Answers calls s')
    (hmore : s'.Answers more s'') : s.Answers (calls ++ more) s'' := by
  induction h with
  | done => exact hmore
  | read h ih => exact .read (ih hmore)
  | write value h ih => exact .write value (ih hmore)
  | flush h ih => exact .flush (ih hmore)

theorem answers_write (s : Streams) (value : UInt8) :
    s.Answers (s.write value).events (s.write value).streams := by
  obtain ⟨reads, writes, flushes⟩ := s
  change Answers _ (writeTo value writes).2.2 ⟨reads, (writeTo value writes).2.1, flushes⟩
  induction writes with
  | nil => exact .write value (.done _)
  | cons outcome rest ih =>
      cases outcome with
      | accepted => exact .write value (.done _)
      | refused => exact .write value (.done _)
      | failure e =>
          by_cases hi : e.isInterruption
          · rw [writeTo_interrupted hi]
            exact .write value ih
          · rw [writeTo_failure hi]
            exact .write value (.done _)

theorem answers_read (s : Streams) : s.Answers s.read.events s.read.streams := by
  obtain ⟨reads, writes, flushes⟩ := s
  change Answers _ (readFrom reads).2.2 ⟨(readFrom reads).2.1, writes, flushes⟩
  induction reads with
  | nil => exact .read (.done _)
  | cons outcome rest ih =>
      cases outcome with
      | byte value => exact .read (.done _)
      | endOfInput => exact .read (.done _)
      | failure e =>
          by_cases hi : e.isInterruption
          · rw [readFrom_interrupted hi]
            exact .read ih
          · rw [readFrom_failure hi]
            exact .read (.done _)

theorem answers_flush (s : Streams) : s.Answers s.flush.events s.flush.streams := by
  obtain ⟨reads, writes, flushes⟩ := s
  cases flushes with
  | nil => exact .flush (.done _)
  | cons outcome rest => cases outcome <;> exact .flush (.done _)

theorem exists_flush_eq (s : Streams) : ∃ outcome, s.flush.events = [.flush outcome] := by
  rcases flush_cases s with ⟨-, hevents⟩ | ⟨e, -, hevents⟩
  · exact ⟨.done, hevents⟩
  · exact ⟨.failure e, hevents⟩

end Streams

/-- What a transfer that did not succeed means for the instruction at `address`. -/
def Fault.ofTransfer? {α : Type} (address : Nat) : Except StreamError α → Option Fault
  | .ok _ => none
  | .error e => some (.stream address e)

theorem Fault.exists_ok_of_ofTransfer? {α : Type} {address : Nat} {result : Except StreamError α}
    (h : ofTransfer? address result = none) : ∃ value, result = .ok value := by
  cases result with
  | ok value => exact ⟨value, rfl⟩
  | error e => contradiction

namespace Machine

theorem output_calls (m : Machine) (s : Streams) :
    ∃ result, OutputCalls m.tape.get (m.output s).events result ∧
      (m.output s).fault = Fault.ofTransfer? m.address result ∧
      s.Answers (m.output s).events (m.output s).streams := by
  have hcalls : OutputCalls m.tape.get (s.write m.tape.get).events (s.write m.tape.get).result :=
    Streams.outputCalls_writeTo m.tape.get s.writes
  have hanswers := Streams.answers_write s m.tape.get
  unfold output
  rcases hwrite : s.write m.tape.get with ⟨e | _, s', events⟩ <;> rw [hwrite] at hcalls hanswers
  · exact ⟨.error e, hcalls, rfl, hanswers⟩
  · exact ⟨.ok (), hcalls, rfl, hanswers⟩

theorem input_calls (eof : EofPolicy) (m : Machine) (s : Streams) :
    ∃ result, InputCalls (m.input eof s).events result ∧
      (m.input eof s).fault = Fault.ofTransfer? m.address result ∧
      s.Answers (m.input eof s).events (m.input eof s).streams := by
  have hflushed := Streams.answers_flush s
  have hcases := Streams.flush_cases s
  unfold input
  rcases hflush : s.flush with ⟨result, s', flushed⟩
  rw [hflush] at hflushed hcases
  obtain ⟨rfl, rfl⟩ | ⟨e, rfl, rfl⟩ := hcases
  · have hcalls : ReadCalls s'.read.events s'.read.result := Streams.readCalls_readFrom s'.reads
    have hanswers := hflushed.append (Streams.answers_read s')
    dsimp only
    rcases hread : s'.read with ⟨e | read, s'', events⟩ <;> rw [hread] at hcalls hanswers
    · exact ⟨.error e, .flushed hcalls, rfl, hanswers⟩
    · exact ⟨.ok read, .flushed hcalls, rfl, hanswers⟩
  · exact ⟨.error e, .unflushed e, rfl, hflushed⟩

/-- The other instructions leave the streams alone. -/
theorem execute_silent (p : Program) (eof : EofPolicy) (m : Machine) (s : Streams)
    {i : Instruction} (hout : i ≠ .output) (hin : i ≠ .input) :
    (m.execute p eof s i).events = [] ∧ (m.execute p eof s i).streams = s := by
  cases i with
  | output => contradiction
  | input => contradiction
  | moveRight | moveLeft =>
    simp only [execute, move]
    split <;> exact ⟨rfl, rfl⟩
  | increment | decrement => exact ⟨rfl, rfl⟩
  | loopStart =>
      simp only [execute, enterLoop]
      split
      · split <;> exact ⟨rfl, rfl⟩
      · exact ⟨rfl, rfl⟩
  | loopEnd =>
      simp only [execute, closeLoop]
      split
      · exact ⟨rfl, rfl⟩
      · split <;> exact ⟨rfl, rfl⟩

theorem execute_answers (p : Program) (eof : EofPolicy) (m : Machine) (s : Streams)
    (i : Instruction) : s.Answers (m.execute p eof s i).events (m.execute p eof s i).streams := by
  by_cases hout : i = .output
  · obtain ⟨-, -, -, h⟩ := m.output_calls s
    rw [hout]
    exact h
  by_cases hin : i = .input
  · obtain ⟨-, -, -, h⟩ := m.input_calls eof s
    rw [hin]
    exact h
  · obtain ⟨hevents, hstreams⟩ := execute_silent p eof m s hout hin
    rw [hevents, hstreams]
    exact .done s

theorem readsFlushed_execute (p : Program) (eof : EofPolicy) (m : Machine) (s : Streams)
    (i : Instruction) (pending : List UInt8) :
    Event.ReadsFlushed pending (m.execute p eof s i).events := by
  by_cases hout : i = .output
  · obtain ⟨result, hcalls, -⟩ := m.output_calls s
    rw [hout]
    exact hcalls.readsFlushed pending
  by_cases hin : i = .input
  · obtain ⟨result, hcalls, -⟩ := m.input_calls eof s
    rw [hin]
    exact hcalls.readsFlushed pending
  · rw [(execute_silent p eof m s hout hin).1]
    trivial

end Machine

end TapeMachine
