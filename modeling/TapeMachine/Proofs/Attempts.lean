import TapeMachine.Proofs.StreamCalls

/-!
# The instructions that a run attempts

A run is seen here as the list of its attempts: each instruction with the machine and the streams
before it and with what it led to.  All of them are completed but perhaps the last one, the calls
of the run are the calls of the attempts and one flush, and what holds of the calls of every single
instruction holds of the whole run.
-/

namespace TapeMachine

/-- An instruction that was attempted, where, and what it led to. -/
structure Attempted where
  instruction : Instruction
  machine : Machine
  streams : Streams
  result : Attempt

namespace Attempted

def calls (x : Attempted) : List Event :=
  x.result.events

def usesStreams (x : Attempted) : Bool :=
  x.instruction = .output || x.instruction = .input

end Attempted

namespace Machine

/-- Executing from here attempts these instructions, one after another, until the program ends or an
instruction fails, and leaves this machine and these streams. -/
inductive Attempts (p : Program) (eof : EofPolicy) :
    Machine → Streams → List Attempted → Machine → Streams → Prop where
  | ended {m : Machine} {s : Streams} (h : p.size ≤ m.address) : Attempts p eof m s [] m s
  | failed {m : Machine} {s : Streams} {i : Instruction} {a : Attempt}
      (hi : p.code[m.address]? = some i) (ha : m.execute p eof s i = a) (hf : a.fault.isSome) :
      Attempts p eof m s [⟨i, m, s, a⟩] a.machine a.streams
  | completed {m m' : Machine} {s s' : Streams} {i : Instruction} {a : Attempt}
      {rest : List Attempted} (hi : p.code[m.address]? = some i)
      (ha : m.execute p eof s i = a) (hf : a.fault = none)
      (hrest : Attempts p eof a.machine a.streams rest m' s') :
      Attempts p eof m s (⟨i, m, s, a⟩ :: rest) m' s'

variable {p : Program} {eof : EofPolicy} {m m' : Machine} {s s' : Streams} {x : Attempted}
  {attempted : List Attempted}

theorem exists_attempts {fuel : Nat} {events : Array Event} {a : Attempt}
    (h : executeAll p eof fuel m s events = some a) :
    ∃ attempted, Attempts p eof m s attempted a.machine a.streams ∧
      a.events = events.toList ++ attempted.flatMap Attempted.calls ∧
      a.fault = attempted.getLast?.bind (·.result.fault) := by
  induction fuel generalizing m s events with
  | zero => contradiction
  | succ fuel ih =>
      simp only [executeAll] at h
      split at h
      · next hstep =>
          obtain rfl := Option.some.inj h
          exact ⟨[], .ended (step?_eq_none_iff.1 hstep), by simp, rfl⟩
      · next m₁ s₁ made hstep =>
          obtain ⟨i, hi, ha⟩ := Option.map_eq_some_iff.1 hstep
          obtain ⟨rest, hrest, hevents, hfault⟩ := ih h
          refine ⟨_ :: rest, .completed hi ha rfl hrest, ?_, ?_⟩
          · rw [hevents]
            simp [Attempted.calls]
          · rw [hfault, List.getLast?_cons]
            cases rest.getLast? <;> rfl
      · next m₁ s₁ made fault hstep =>
          obtain ⟨i, hi, ha⟩ := Option.map_eq_some_iff.1 hstep
          obtain rfl := Option.some.inj h
          refine ⟨[⟨i, m, s, ⟨m₁, s₁, made, some fault⟩⟩], .failed hi ha rfl, ?_, rfl⟩
          simp [Attempted.calls]

theorem Attempts.result_eq (h : Attempts p eof m s attempted m' s') (hx : x ∈ attempted) :
    x.result = x.machine.execute p eof x.streams x.instruction := by
  induction h with
  | ended => contradiction
  | failed hi ha hf =>
      obtain rfl := List.mem_singleton.1 hx
      exact ha.symm
  | completed hi ha hf hrest ih =>
      rcases List.mem_cons.1 hx with rfl | hx
      · exact ha.symm
      · exact ih hx

theorem Attempts.fault_of_mem_dropLast (h : Attempts p eof m s attempted m' s')
    (hx : x ∈ attempted.dropLast) : x.result.fault = none := by
  induction h with
  | ended => contradiction
  | failed hi ha hf => contradiction
  | @completed _ _ _ _ _ _ rest hi ha hf hrest ih =>
      cases rest with
      | nil => contradiction
      | cons y rest =>
          rw [List.dropLast_cons_of_ne_nil (by simp)] at hx
          rcases List.mem_cons.1 hx with rfl | hx
          · exact hf
          · exact ih hx

theorem Attempts.answers (h : Attempts p eof m s attempted m' s') :
    s.Answers (attempted.flatMap Attempted.calls) s' := by
  induction h with
  | ended => exact .done _
  | failed hi ha hf =>
      rw [List.flatMap_singleton]
      exact ha ▸ execute_answers ..
  | completed hi ha hf hrest ih =>
      rw [List.flatMap_cons]
      exact Streams.Answers.append (ha ▸ execute_answers ..) ih

theorem Attempts.readsFlushed (h : Attempts p eof m s attempted m' s') (pending : List UInt8) :
    Event.ReadsFlushed pending (attempted.flatMap Attempted.calls) := by
  induction h generalizing pending with
  | ended => trivial
  | failed hi ha hf =>
      rw [List.flatMap_singleton]
      exact ha ▸ readsFlushed_execute ..
  | completed hi ha hf hrest ih =>
      rw [List.flatMap_cons, Event.readsFlushed_append]
      exact ⟨ha ▸ readsFlushed_execute .., ih _⟩

theorem Attempts.calls_of_output (h : Attempts p eof m s attempted m' s') (hx : x ∈ attempted)
    (hi : x.instruction = .output) :
    ∃ result, OutputCalls x.machine.tape.get x.calls result ∧
      x.result.fault = Fault.ofTransfer? x.machine.address result ∧
      (x.result.fault = none → x.calls.filterMap Event.delivered? = [x.machine.tape.get]) := by
  obtain ⟨result, hcalls, hfault, -⟩ := x.machine.output_calls x.streams
  have hresult : x.result = x.machine.output x.streams := by
    rw [h.result_eq hx, hi]
    rfl
  rw [Attempted.calls, hresult]
  refine ⟨result, hcalls, hfault, ?_⟩
  intro hnone
  obtain ⟨_, rfl⟩ := Fault.exists_ok_of_ofTransfer? (hfault.symm.trans hnone)
  exact hcalls.delivered_eq

theorem Attempts.calls_of_input (h : Attempts p eof m s attempted m' s') (hx : x ∈ attempted)
    (hi : x.instruction = .input) :
    ∃ result, InputCalls x.calls result ∧
      x.result.fault = Fault.ofTransfer? x.machine.address result ∧
      (x.result.fault = none → ∃ outcome, x.calls.filterMap Event.received? = [outcome]) := by
  obtain ⟨result, hcalls, hfault, -⟩ := x.machine.input_calls eof x.streams
  have hresult : x.result = x.machine.input eof x.streams := by
    rw [h.result_eq hx, hi]
    rfl
  rw [Attempted.calls, hresult]
  refine ⟨result, hcalls, hfault, ?_⟩
  intro hnone
  obtain ⟨read, rfl⟩ := Fault.exists_ok_of_ofTransfer? (hfault.symm.trans hnone)
  rw [hcalls.received_eq]
  cases read with
  | none => exact ⟨.endOfInput, rfl⟩
  | some value => exact ⟨.byte value, rfl⟩

theorem Attempts.calls_eq_nil (h : Attempts p eof m s attempted m' s') (hx : x ∈ attempted)
    (hsilent : ¬ x.usesStreams) : x.calls = [] ∧ x.result.streams = x.streams := by
  have hne : x.instruction ≠ .output ∧ x.instruction ≠ .input := by
    simpa [Attempted.usesStreams] using hsilent
  rw [Attempted.calls, h.result_eq hx]
  exact execute_silent p eof x.machine x.streams hne.1 hne.2

theorem Attempts.flatMap_calls (h : Attempts p eof m s attempted m' s') :
    attempted.flatMap Attempted.calls =
      (attempted.filter Attempted.usesStreams).flatMap Attempted.calls := by
  have hnil (x : Attempted) (hx : x ∈ attempted) (hsilent : ¬ x.usesStreams) : x.calls = [] :=
    (h.calls_eq_nil hx hsilent).1
  clear h
  induction attempted with
  | nil => rfl
  | cons x rest ih =>
      have hrest := ih fun y hy => hnil y (List.mem_cons_of_mem x hy)
      by_cases hx : x.usesStreams
      · rw [List.filter_cons_of_pos hx, List.flatMap_cons, List.flatMap_cons, hrest]
      · rw [List.filter_cons_of_neg hx, List.flatMap_cons, hnil x List.mem_cons_self hx, hrest,
          List.nil_append]

/-- A run attempts its instructions and then flushes. -/
theorem exists_attempts_of_run {fuel : Nat} {r : Report} (h : m.run p eof fuel s = some r) :
    ∃ attempted s', Attempts p eof m s attempted r.machine s' ∧
      r.stopped = attempted.getLast?.bind (·.result.fault) ∧
      r.events = attempted.flatMap Attempted.calls ++ s'.flush.events ∧
      r.streams = s'.flush.streams := by
  obtain ⟨a, ha, rfl⟩ := Option.map_eq_some_iff.1 h
  obtain ⟨attempted, hattempts, hevents, hfault⟩ := exists_attempts ha
  refine ⟨attempted, a.streams, hattempts, hfault, ?_, rfl⟩
  rw [finish, hevents]
  rfl

/-- The scripts answer the calls of a run, the final flush included. -/
theorem answers_of_run {fuel : Nat} {r : Report} (h : m.run p eof fuel s = some r) :
    s.Answers r.events r.streams := by
  obtain ⟨attempted, s', hattempts, -, hevents, hstreams⟩ := exists_attempts_of_run h
  rw [hevents, hstreams]
  exact hattempts.answers.append (Streams.answers_flush s')

/-- How a run uses its streams, whatever the machine and the scripts are.  Its calls are those of
the output and input instructions that it attempted, each group of the form that belongs to the
instruction, and one flush at the end; the scripts answer these calls and no others.  Only the last
attempted instruction can have failed.  So a completed output delivers the current cell once, a
completed input receives once, and nothing waits to be flushed when something is read. -/
theorem run_calls {fuel : Nat} {r : Report} (h : m.run p eof fuel s = some r) :
    ∃ attempted s', Attempts p eof m s attempted r.machine s' ∧
      (∀ x ∈ attempted.dropLast, x.result.fault = none) ∧
      r.stopped = attempted.getLast?.bind (·.result.fault) ∧
      (∃ outcome, r.events =
        (attempted.filter Attempted.usesStreams).flatMap Attempted.calls ++ [.flush outcome]) ∧
      (∀ x ∈ attempted, x.instruction = .output →
        ∃ result, OutputCalls x.machine.tape.get x.calls result ∧
          x.result.fault = Fault.ofTransfer? x.machine.address result ∧
          (x.result.fault = none → x.calls.filterMap Event.delivered? = [x.machine.tape.get])) ∧
      (∀ x ∈ attempted, x.instruction = .input →
        ∃ result, InputCalls x.calls result ∧
          x.result.fault = Fault.ofTransfer? x.machine.address result ∧
          (x.result.fault = none →
            ∃ outcome, x.calls.filterMap Event.received? = [outcome])) ∧
      (∀ x ∈ attempted, x.instruction ≠ .output → x.instruction ≠ .input →
        x.calls = [] ∧ x.result.streams = x.streams) ∧
      s.Answers r.events r.streams ∧
      ∀ pending before outcome after, r.events = before ++ .read outcome :: after →
        Event.unflushed pending before = [] := by
  obtain ⟨attempted, s', hattempts, hstopped, hevents, hstreams⟩ := exists_attempts_of_run h
  obtain ⟨outcome, hflush⟩ := Streams.exists_flush_eq s'
  refine ⟨attempted, s', hattempts, fun x hx => hattempts.fault_of_mem_dropLast hx, hstopped,
    ⟨outcome, ?_⟩, fun x hx => hattempts.calls_of_output hx,
    fun x hx => hattempts.calls_of_input hx, ?_, ?_, ?_⟩
  · rw [hevents, hflush, hattempts.flatMap_calls]
  · intro x hx hout hin
    exact hattempts.calls_eq_nil hx (by simp [Attempted.usesStreams, hout, hin])
  · rw [hevents, hstreams]
    exact hattempts.answers.append (Streams.answers_flush s')
  · intro pending before outcome' after hsplit
    have hflushed : Event.ReadsFlushed pending r.events := by
      rw [hevents, hflush, Event.readsFlushed_append]
      exact ⟨hattempts.readsFlushed pending, by simp, trivial⟩
    rw [hsplit] at hflushed
    exact hflushed.unflushed_eq_nil

/-- A write and a read are interrupted, then the second byte is refused and the last flush fails. -/
theorem run_calls_interrupted :
    let interrupted : StreamError := .ofKind .interrupted
    let closed : StreamError := .ofKind .brokenPipe
    let s : Streams :=
      { reads := [.failure interrupted, .byte 7]
        writes := [.failure interrupted, .accepted, .refused]
        flushes := [.done, .failure closed] }
    ∃ (p : Program) (m : Machine) (r : Report), Program.parse "+.,." = .ok p ∧
      Machine.new { tapeLength := ⟨2, by decide, by decide⟩ } = .ok m ∧
      m.run p .zero 9 s = some r ∧
      r.events = [.write 1 (.failure interrupted), .write 1 .accepted, .flush .done,
        .read (.failure interrupted), .read (.byte 7), .write 7 .refused,
        .flush (.failure closed)] ∧
      s.Answers r.events r.streams ∧
      Event.unflushed [5] [.write 1 (.failure interrupted), .write 1 .accepted, .flush .done] =
        [] := by
  intro interrupted closed s
  let p : Program :=
    { code := #[.increment, .output, .input, .output], jumps := #[none, none, none, none]
      size_jumps := rfl }
  let m : Machine := { tape := ⟨#[0, 0], 0, .bounded, by decide⟩ }
  have hparse : Program.parse "+.,." = .ok p := by rfl
  have hnew : Machine.new { tapeLength := ⟨2, by decide, by decide⟩ } = .ok m := by rfl
  let r : Report := (m.run p .zero 9 s).get (by decide)
  have hrun : m.run p .zero 9 s = some r := (Option.some_get _).symm
  have hevents : r.events = [.write 1 (.failure interrupted), .write 1 .accepted, .flush .done,
      .read (.failure interrupted), .read (.byte 7), .write 7 .refused,
      .flush (.failure closed)] := by decide
  obtain ⟨-, -, -, -, -, -, -, -, -, hanswers, hflushed⟩ := run_calls hrun
  exact ⟨p, m, r, hparse, hnew, hrun, hevents, hanswers,
    hflushed [5] [.write 1 (.failure interrupted), .write 1 .accepted, .flush .done] _ _ hevents⟩

end Machine

end TapeMachine
