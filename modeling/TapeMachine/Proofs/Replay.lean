import TapeMachine.Proofs.Moment

/-!
# Faulty streams replayed

A run may fail at any stream call and the machine may be run again from where it stands.  Nothing is
lost or done twice in this way.  All the runs together do what one undisturbed execution does that
is given, as its input, the bytes and ends of input which the runs received: after as many
instructions it has the same machine and has delivered the same bytes.

The reason is the same at each instruction.  One that is completed received and delivered what it
would have on streams that never fail; one that fails received and delivered nothing.
-/

namespace TapeMachine

/-- What a call received, if it was a read that did not fail. -/
def Event.received? : Event → Option ReadOutcome
  | .read (.byte value) => some (.byte value)
  | .read .endOfInput => some .endOfInput
  | _ => none

def Report.received (r : Report) : List ReadOutcome :=
  r.events.filterMap Event.received?

/-- The machine that a sequence of runs leaves behind. -/
def Machine.leftBy (m : Machine) (reports : List Report) : Machine :=
  (reports.getLast?.map Report.machine).getD m

namespace Streams

def receivedOf : Except StreamError (Option UInt8) → List ReadOutcome
  | .ok (some value) => [.byte value]
  | .ok none => [.endOfInput]
  | .error _ => []

def deliveredOf (value : UInt8) : Except StreamError Unit → List UInt8
  | .ok () => [value]
  | .error _ => []

variable {e : StreamError} {value : UInt8}

theorem readFrom_interrupted (hi : e.isInterruption) (rest : List ReadOutcome) :
    readFrom (.failure e :: rest) =
      ((readFrom rest).1, (readFrom rest).2.1, .read (.failure e) :: (readFrom rest).2.2) := by
  rw [readFrom, if_pos hi]

theorem readFrom_failure (hi : ¬ e.isInterruption) (rest : List ReadOutcome) :
    readFrom (.failure e :: rest) = (.error e, rest, [.read (.failure e)]) := by
  rw [readFrom, if_neg hi]

theorem writeTo_interrupted (hi : e.isInterruption) (rest : List WriteOutcome) :
    writeTo value (.failure e :: rest) =
      ((writeTo value rest).1, (writeTo value rest).2.1,
        .write value (.failure e) :: (writeTo value rest).2.2) := by
  rw [writeTo, if_pos hi]

theorem writeTo_failure (hi : ¬ e.isInterruption) (rest : List WriteOutcome) :
    writeTo value (.failure e :: rest) = (.error e, rest, [.write value (.failure e)]) := by
  rw [writeTo, if_neg hi]

theorem calls_readFrom (script : List ReadOutcome) :
    (readFrom script).2.2.filterMap Event.received? = receivedOf (readFrom script).1 ∧
      (readFrom script).2.2.filterMap Event.delivered? = [] := by
  induction script with
  | nil => exact ⟨rfl, rfl⟩
  | cons outcome rest ih =>
      cases outcome with
      | byte value => exact ⟨rfl, rfl⟩
      | endOfInput => exact ⟨rfl, rfl⟩
      | failure e =>
          by_cases hi : e.isInterruption
          · rw [readFrom_interrupted hi]
            exact ih
          · rw [readFrom_failure hi]
            exact ⟨rfl, rfl⟩

theorem calls_writeTo (value : UInt8) (script : List WriteOutcome) :
    (writeTo value script).2.2.filterMap Event.received? = [] ∧
      (writeTo value script).2.2.filterMap Event.delivered? =
        deliveredOf value (writeTo value script).1 := by
  induction script with
  | nil => exact ⟨rfl, rfl⟩
  | cons outcome rest ih =>
      cases outcome with
      | accepted => exact ⟨rfl, rfl⟩
      | refused => exact ⟨rfl, rfl⟩
      | failure e =>
          by_cases hi : e.isInterruption
          · rw [writeTo_interrupted hi]
            exact ih
          · rw [writeTo_failure hi]
            exact ⟨rfl, rfl⟩

theorem calls_flush (s : Streams) :
    s.flush.events.filterMap Event.received? = [] ∧
      s.flush.events.filterMap Event.delivered? = [] := by
  unfold flush
  split <;> exact ⟨rfl, rfl⟩

/-- Streams that never fail and whose input begins with what a user was told tell the user the
same. -/
theorem read_receivedOf (read : Option UInt8) (rest : List ReadOutcome) :
    ({ reads := receivedOf (.ok read) ++ rest } : Streams).read =
      { result := .ok read, streams := { reads := rest }
        events := (receivedOf (.ok read)).map .read } := by
  cases read <;> rfl

end Streams

open Streams

namespace Action

variable {action : Action} {eof : EofPolicy} {tape tape' : Tape} {s s' : Streams}
  {made : List Event}

theorem perform_output (eof : EofPolicy) (tape : Tape) (s : Streams) :
    ∃ s' made, made.filterMap Event.received? = [] ∧
      ((perform eof tape s .output = ⟨.ok tape, s', made⟩ ∧
          made.filterMap Event.delivered? = [tape.get]) ∨
        ∃ e, perform eof tape s .output = ⟨.error (.stream e), s', made⟩ ∧
          made.filterMap Event.delivered? = []) := by
  obtain ⟨hreceived, hdelivered⟩ := calls_writeTo tape.get s.writes
  rcases hwrite : writeTo tape.get s.writes with ⟨e | _, writes, made⟩ <;>
    rw [hwrite] at hreceived hdelivered <;>
    refine ⟨{ s with writes }, made, hreceived, ?_⟩
  · exact .inr ⟨e, by simp only [perform, write, hwrite], hdelivered⟩
  · exact .inl ⟨by simp only [perform, write, hwrite], hdelivered⟩

theorem perform_input (eof : EofPolicy) (tape : Tape) (s : Streams) :
    ∃ s' made, made.filterMap Event.delivered? = [] ∧
      ((∃ read, perform eof tape s .input = ⟨.ok (Machine.store eof read tape), s', made⟩ ∧
          made.filterMap Event.received? = receivedOf (.ok read)) ∨
        ∃ e, perform eof tape s .input = ⟨.error (.stream e), s', made⟩ ∧
          made.filterMap Event.received? = []) := by
  obtain ⟨hflushed, hflushedOut⟩ := calls_flush s
  rcases hflush : s.flush with ⟨e | _, s₁, flushed⟩ <;> rw [hflush] at hflushed hflushedOut
  · refine ⟨s₁, flushed, hflushedOut, .inr ⟨e, ?_, hflushed⟩⟩
    simp only [perform, hflush]
  · obtain ⟨hreceived, hdelivered⟩ := calls_readFrom s₁.reads
    rcases hread : readFrom s₁.reads with ⟨e | read, reads, made⟩ <;>
      rw [hread] at hreceived hdelivered <;>
      refine ⟨{ s₁ with reads }, flushed ++ made, ?_, ?_⟩
    · rw [List.filterMap_append, hflushedOut, hdelivered, List.nil_append]
    · refine .inr ⟨e, by simp only [perform, hflush, Streams.read, hread], ?_⟩
      rw [List.filterMap_append, hflushed, hreceived]
      rfl
    · rw [List.filterMap_append, hflushedOut, hdelivered, List.nil_append]
    · refine .inl ⟨read, by simp only [perform, hflush, Streams.read, hread], ?_⟩
      rw [List.filterMap_append, hflushed, hreceived, List.nil_append]

/-- A completed action received and delivered what it would have on streams that never fail. -/
theorem perform_replay (h : action.perform eof tape s = ⟨.ok tape', s', made⟩)
    (rest : List ReadOutcome) :
    ∃ calls, action.perform eof tape { reads := made.filterMap Event.received? ++ rest } =
        ⟨.ok tape', { reads := rest }, calls⟩ ∧
      calls.filterMap Event.delivered? = made.filterMap Event.delivered? := by
  cases action with
  | output =>
      obtain ⟨s₁, events, hreceived, ⟨hperform, hdelivered⟩ | ⟨e, hperform, -⟩⟩ :=
        perform_output eof tape s
      · obtain ⟨hresult, rfl, rfl⟩ := Effect.mk.inj (hperform.symm.trans h)
        refine ⟨[.write tape.get .accepted], ?_, hdelivered.symm⟩
        rw [hreceived, ← hresult]
        rfl
      · simp [hperform] at h
  | input =>
      obtain ⟨s₁, events, hdelivered, ⟨read, hperform, hreceived⟩ | ⟨e, hperform, -⟩⟩ :=
        perform_input eof tape s
      · obtain ⟨hresult, rfl, rfl⟩ := Effect.mk.inj (hperform.symm.trans h)
        refine ⟨.flush .done :: (receivedOf (.ok read)).map .read, ?_, ?_⟩
        · rw [hreceived, ← hresult]
          simp only [perform, flush, read_receivedOf]
          rfl
        · rw [hdelivered]
          cases read <;> rfl
      · simp [hperform] at h
  | _ =>
      simp only [perform, Effect.mk.injEq] at h
      obtain ⟨hresult, rfl, rfl⟩ := h
      exact ⟨[], by simp [perform, hresult], rfl⟩

theorem perform_error {obstacle : Obstacle}
    (h : action.perform eof tape s = ⟨.error obstacle, s', made⟩) :
    made.filterMap Event.received? = [] ∧ made.filterMap Event.delivered? = [] := by
  cases action with
  | output =>
      obtain ⟨s₁, events, hreceived, ⟨hperform, -⟩ | ⟨e, hperform, hdelivered⟩⟩ :=
        perform_output eof tape s
      · simp [hperform] at h
      · obtain ⟨-, -, rfl⟩ := Effect.mk.inj (hperform.symm.trans h)
        exact ⟨hreceived, hdelivered⟩
  | input =>
      obtain ⟨s₁, events, hdelivered, ⟨read, hperform, -⟩ | ⟨e, hperform, hreceived⟩⟩ :=
        perform_input eof tape s
      · simp [hperform] at h
      · obtain ⟨-, -, rfl⟩ := Effect.mk.inj (hperform.symm.trans h)
        exact ⟨hreceived, hdelivered⟩
  | _ =>
      obtain ⟨-, -, rfl⟩ := Effect.mk.inj h
      exact ⟨rfl, rfl⟩

end Action

namespace Machine

variable {p : Program} {eof : EofPolicy} {m m' : Machine} {s s' : Streams} {made : List Event}

/-- A completed instruction can be replayed on streams that never fail. -/
theorem step?_replay (h : m.step? p eof s = some ⟨m', s', made, none⟩)
    (rest : List ReadOutcome) :
    ∃ calls, m.step? p eof { reads := made.filterMap Event.received? ++ rest } =
        some ⟨m', { reads := rest }, calls, none⟩ ∧
      calls.filterMap Event.delivered? = made.filterMap Event.delivered? := by
  rcases (step_of_step? h).action_or_silent with ⟨action, hcode, ha⟩ | ⟨-, hmade, hstep⟩
  · rcases hperform : action.perform eof m.tape s with ⟨obstacle | tape, s₁, events⟩ <;>
      rw [hperform] at ha
    · simp [carryOut] at ha
    · obtain ⟨rfl, rfl, rfl, -⟩ := Attempt.mk.inj ha
      obtain ⟨calls, hcalls, hdelivered⟩ := Action.perform_replay hperform rest
      let input : Streams := { reads := made.filterMap Event.received? ++ rest }
      have hstep : Step p eof m input _ := .action hcode
      rw [hcalls] at hstep
      exact ⟨calls, hstep.step?_eq, hdelivered⟩
  · obtain rfl : made = [] := hmade
    exact ⟨[], (hstep eof _).step?_eq, rfl⟩

theorem Step.calls_of_fault {a : Attempt} (h : Step p eof m s a) {fault : Fault}
    (hf : a.fault = some fault) :
    a.events.filterMap Event.received? = [] ∧ a.events.filterMap Event.delivered? = [] := by
  rcases h.action_or_silent with ⟨action, -, rfl⟩ | ⟨-, hmade, -⟩
  · rcases hperform : action.perform eof m.tape s with ⟨obstacle | tape, s₁, events⟩
    · exact Action.perform_error hperform
    · rw [hperform] at hf
      contradiction
  · rw [hmade]
    exact ⟨rfl, rfl⟩

end Machine

namespace Moment

variable {p : Program} {eof : EofPolicy} {c d : Moment} {a : Attempt} {n : Nat}

theorem after_replay (h : c.after p eof n = some d) :
    ∃ made, d.events = c.events ++ made ∧ ∀ rest events, ∃ calls,
      Moment.after p eof n
          ⟨c.machine, { reads := made.filterMap Event.received? ++ rest }, events⟩ =
        some ⟨d.machine, { reads := rest }, events ++ calls⟩ ∧
      calls.filterMap Event.delivered? = made.filterMap Event.delivered? := by
  induction n generalizing c with
  | zero =>
      obtain rfl : c = d := Option.some.inj h
      refine ⟨[], (List.append_nil _).symm, fun rest events => ⟨[], ?_, rfl⟩⟩
      rw [List.append_nil]
      rfl
  | succ n ih =>
      obtain ⟨e, he, hd⟩ := after_succ_eq_some_iff.1 h
      obtain ⟨first, hs, hfirst⟩ := next?_eq_some_iff.1 he
      obtain ⟨later, hlater, hreplay⟩ := ih hd
      refine ⟨first ++ later, by rw [hlater, hfirst, List.append_assoc], fun rest events => ?_⟩
      obtain ⟨calls, hstep, hcalls⟩ :=
        Machine.step?_replay hs (later.filterMap Event.received? ++ rest)
      obtain ⟨calls', hafter, hcalls'⟩ := hreplay rest (events ++ calls)
      refine ⟨calls ++ calls', ?_, ?_⟩
      · have hnext : next? p eof
            ⟨c.machine, { reads := first.filterMap Event.received? ++
              (later.filterMap Event.received? ++ rest) }, events⟩ =
            some ⟨e.machine, { reads := later.filterMap Event.received? ++ rest },
              events ++ calls⟩ := next?_eq_some_iff.2 ⟨calls, hstep, rfl⟩
        rw [List.filterMap_append, List.append_assoc, after_succ, hnext, Option.bind_some, hafter,
          List.append_assoc]
      · rw [List.filterMap_append, List.filterMap_append, hcalls, hcalls']

theorem calls_of_ending? (h : c.ending? p eof = some a) :
    ∃ made, a.events = c.events ++ made ∧ made.filterMap Event.received? = [] ∧
      made.filterMap Event.delivered? = [] := by
  rcases ending?_eq_some_iff.1 h with ⟨-, rfl⟩ | ⟨made, fault, hs, hmade, -⟩
  · exact ⟨[], (List.append_nil _).symm, rfl, rfl⟩
  · obtain ⟨hreceived, hdelivered⟩ := (Machine.step_of_step? hs).calls_of_fault rfl
    exact ⟨made, hmade, hreceived, hdelivered⟩

end Moment

namespace Machine

open Moment

variable {p : Program} {eof : EofPolicy} {m : Machine} {s : Streams} {fuel : Nat}

theorem run_replay {r : Report} (h : m.run p eof fuel s = some r) :
    ∃ n, ∀ rest events, ∃ calls,
      Moment.after p eof n ⟨m, { reads := r.received ++ rest }, events⟩ =
        some ⟨r.machine, { reads := rest }, events ++ calls⟩ ∧
      calls.filterMap Event.delivered? = r.output := by
  obtain ⟨n, -, a, ⟨d, hd, hending⟩, rfl⟩ := run_eq_some_iff.1 h
  obtain ⟨made, hmade, hreplay⟩ := after_replay hd
  obtain ⟨last, hlast, hreceived, hdelivered⟩ := calls_of_ending? hending
  have hevents : (finish a).events = made ++ last ++ a.streams.flush.events := by
    simp only [finish, hlast, hmade, List.nil_append]
  have hreceive : (finish a).received = made.filterMap Event.received? := by
    rw [Report.received, hevents, List.filterMap_append, List.filterMap_append, hreceived,
      (calls_flush _).1, List.append_nil, List.append_nil]
  have houtput : (finish a).output = made.filterMap Event.delivered? := by
    rw [Report.output, hevents, List.filterMap_append, List.filterMap_append, hdelivered,
      (calls_flush _).2, List.append_nil, List.append_nil]
  have hmachine : (finish a).machine = d.machine := machine_of_ending? hending
  refine ⟨n, fun rest events => ?_⟩
  rw [hreceive, houtput, hmachine]
  exact hreplay rest events

@[simp] theorem leftBy_cons (m : Machine) (r : Report) (reports : List Report) :
    m.leftBy (r :: reports) = r.machine.leftBy reports := by
  rw [leftBy, leftBy, List.getLast?_cons, Option.map_some, Option.getD_some]
  cases reports.getLast? <;> rfl

theorem runEach_replay {streams : List Streams} {reports : List Report}
    (h : m.runEach p eof fuel streams = some reports) :
    ∃ n, ∀ rest events, ∃ calls,
      Moment.after p eof n ⟨m, { reads := reports.flatMap Report.received ++ rest }, events⟩ =
        some ⟨m.leftBy reports, { reads := rest }, events ++ calls⟩ ∧
      calls.filterMap Event.delivered? = reports.flatMap Report.output := by
  induction streams generalizing m reports with
  | nil =>
      obtain rfl : [] = reports := Option.some.inj h
      refine ⟨0, fun rest events => ⟨[], ?_, rfl⟩⟩
      rw [List.append_nil]
      rfl
  | cons s streams ih =>
      obtain ⟨r, hr, h⟩ := Option.bind_eq_some_iff.1 h
      obtain ⟨later, hlater, h⟩ := Option.bind_eq_some_iff.1 h
      obtain rfl : r :: later = reports := Option.some.inj h
      obtain ⟨n, hfirst⟩ := run_replay hr
      obtain ⟨k, hrest⟩ := ih hlater
      refine ⟨n + k, fun rest events => ?_⟩
      obtain ⟨calls, hafter, hcalls⟩ := hfirst (later.flatMap Report.received ++ rest) events
      obtain ⟨calls', hafter', hcalls'⟩ := hrest rest (events ++ calls)
      refine ⟨calls ++ calls', ?_, ?_⟩
      · rw [List.flatMap_cons, List.append_assoc, leftBy_cons, ← List.append_assoc events]
        exact after_trans hafter hafter'
      · rw [List.filterMap_append, List.flatMap_cons, hcalls, hcalls']

/-- Any finite sequence of runs of one machine, whatever its streams do, amounts to one undisturbed
execution of a new machine on streams that never fail and whose input is all that the runs
received.  When it has completed as many instructions as the machine counts, it has come to the same
machine, has used up that input, and has delivered exactly what the runs delivered together. -/
theorem faults_lose_nothing {config : Config} (hnew : new config = .ok m)
    {streams : List Streams} {reports : List Report}
    (h : m.runEach p config.eof fuel streams = some reports) :
    ∃ d, Moment.after p config.eof (m.leftBy reports).steps
        ⟨m, { reads := reports.flatMap Report.received }, []⟩ = some d ∧
      d.machine = m.leftBy reports ∧ d.streams = {} ∧
      d.events.filterMap Event.delivered? = reports.flatMap Report.output := by
  obtain ⟨n, hreplay⟩ := runEach_replay h
  obtain ⟨calls, hafter, hcalls⟩ := hreplay [] []
  rw [List.append_nil, List.nil_append] at hafter
  have hsteps : (m.leftBy reports).steps = n := by
    have hcount := steps_of_after hafter
    obtain ⟨tape, -, rfl⟩ := new_eq_ok_iff.1 hnew
    simpa using hcount
  rw [hsteps]
  exact ⟨_, hafter, rfl, rfl, hcalls⟩

/-- Of four runs the first fails at the flush before the read, the second at the write and the third
at the same write again. -/
theorem faults_lose_nothing_four_runs :
    ∃ (p : Program) (m : Machine) (streams : List Streams) (reports : List Report),
      Program.parse ",." = .ok p ∧
      Machine.new { tapeLength := ⟨2, by decide, by decide⟩ } = .ok m ∧
      m.runEach p .zero 3 streams = some reports ∧
      reports.flatMap Report.received = [.byte 65] ∧
      ∃ d, Moment.after p .zero 2 ⟨m, { reads := [.byte 65] }, []⟩ = some d ∧
        d.machine = m.leftBy reports ∧ d.events.filterMap Event.delivered? = [65] := by
  let p : Program := { code := #[.input, .output], jumps := #[none, none], size_jumps := rfl }
  let m : Machine := { tape := ⟨#[0, 0], 0, .bounded, by decide⟩ }
  let interrupted : StreamError := .ofKind .interrupted
  let streams : List Streams :=
    [{ flushes := [.failure interrupted], reads := [.byte 1] },
      { reads := [.failure interrupted, .byte 65], writes := [.failure (.ofKind .brokenPipe)] },
      { writes := [.refused] }, {}]
  have hparse : Program.parse ",." = .ok p := by rfl
  have hnew : Machine.new { tapeLength := ⟨2, by decide, by decide⟩ } = .ok m := by rfl
  let reports : List Report := (m.runEach p .zero 3 streams).get (by decide)
  have hreports : m.runEach p .zero 3 streams = some reports := (Option.some_get _).symm
  have hreceived : reports.flatMap Report.received = [.byte 65] := by decide
  have hsteps : (m.leftBy reports).steps = 2 := by decide
  have houtput : reports.flatMap Report.output = [65] := by decide
  obtain ⟨d, hd, hmachine, -, hdelivered⟩ := faults_lose_nothing hnew hreports
  rw [hreceived, hsteps] at hd
  exact ⟨p, m, streams, reports, hparse, hnew, hreports, hreceived, d, hd, hmachine,
    hdelivered.trans houtput⟩

end Machine

end TapeMachine
