import TapeMachine.Proofs.LoopStack
import TapeMachine.Proofs.Replay
import TapeMachine.Proofs.TapeMoves

/-!
# Why a run fails

`FaultCause` lists the ways in which an instruction can fail, each with what is then true of the
machine and of the calls that the instruction made.  Every fault of a run has such a cause at the
instruction where the machine stands, or else all instructions were completed and the last flush
failed.  The machine is then the one that the last completed instruction left.
-/

namespace TapeMachine

namespace Event

/-- The failure that a call reported.  A write that took nothing is one. -/
def failure? : Event → Option StreamError
  | .read (.failure e) => some e
  | .write _ (.failure e) => some e
  | .write _ .refused => some .nothingWritten
  | .flush (.failure e) => some e
  | _ => none

/-- The last of these calls failed with this error. -/
def LastFailed (calls : List Event) (e : StreamError) : Prop :=
  ∃ call, calls.getLast? = some call ∧ call.failure? = some e

variable {calls : List Event} {e : StreamError}

theorem lastFailed_singleton {call : Event} (h : call.failure? = some e) :
    LastFailed [call] e :=
  ⟨call, rfl, h⟩

theorem LastFailed.append_left (h : LastFailed calls e) (before : List Event) :
    LastFailed (before ++ calls) e := by
  obtain ⟨call, hlast, hfailure⟩ := h
  refine ⟨call, ?_, hfailure⟩
  rw [List.getLast?_append, hlast, Option.some_or]

theorem LastFailed.cons (h : LastFailed calls e) (first : Event) :
    LastFailed (first :: calls) e :=
  h.append_left [first]

end Event

namespace Streams

open Event

variable {e : StreamError}

theorem lastFailed_readFrom {script : List ReadOutcome} (h : (readFrom script).1 = .error e) :
    LastFailed (readFrom script).2.2 e := by
  induction script with
  | nil => simp [readFrom] at h
  | cons outcome rest ih =>
      cases outcome with
      | byte value => simp [readFrom] at h
      | endOfInput => simp [readFrom] at h
      | failure e' =>
          by_cases hi : e'.isInterruption
          · rw [readFrom_interrupted hi] at h ⊢
            exact (ih h).cons _
          · rw [readFrom_failure hi] at h ⊢
            obtain rfl := Except.error.inj h
            exact lastFailed_singleton rfl

theorem lastFailed_writeTo {value : UInt8} {script : List WriteOutcome}
    (h : (writeTo value script).1 = .error e) : LastFailed (writeTo value script).2.2 e := by
  induction script with
  | nil => simp [writeTo] at h
  | cons outcome rest ih =>
      cases outcome with
      | accepted => simp [writeTo] at h
      | refused =>
          obtain rfl := Except.error.inj h
          exact lastFailed_singleton rfl
      | failure e' =>
          by_cases hi : e'.isInterruption
          · rw [writeTo_interrupted hi] at h ⊢
            exact (ih h).cons _
          · rw [writeTo_failure hi] at h ⊢
            obtain rfl := Except.error.inj h
            exact lastFailed_singleton rfl

theorem flush_cases (s : Streams) :
    (s.flush.result = .ok () ∧ s.flush.events = [.flush .done]) ∨
      ∃ e, s.flush.result = .error e ∧ s.flush.events = [.flush (.failure e)] := by
  unfold flush
  split
  · exact .inl ⟨rfl, rfl⟩
  · exact .inl ⟨rfl, rfl⟩
  · exact .inr ⟨_, rfl, rfl⟩

theorem lastFailed_flush {s : Streams} (h : s.flush.result = .error e) :
    LastFailed s.flush.events e := by
  rcases flush_cases s with ⟨hresult, -⟩ | ⟨e', hresult, hevents⟩ <;> rw [hresult] at h
  · contradiction
  · obtain rfl := Except.error.inj h
    rw [hevents]
    exact lastFailed_singleton rfl

end Streams

open Event Streams

namespace Action

variable {action : Action} {eof : EofPolicy} {tape : Tape} {s s' : Streams} {made : List Event}

/-- What keeps an action from being completed: an end of a bounded tape, or a call that failed. -/
theorem obstacle_cases_of_perform {obstacle : Obstacle}
    (h : action.perform eof tape s = ⟨.error obstacle, s', made⟩) :
    (∃ pointer, obstacle = .edge pointer ∧ made = [] ∧
      ((action = .moveRight ∧ tape.moveRight = .error pointer) ∨
        (action = .moveLeft ∧ tape.moveLeft = .error pointer))) ∨
      ∃ e, obstacle = .stream e ∧ (action = .output ∨ action = .input) ∧ LastFailed made e := by
  cases action with
  | moveRight =>
      obtain ⟨hmoved, -, rfl⟩ := Effect.mk.inj h
      obtain ⟨pointer, hmove, hedge⟩ := mapError_edge_eq_error_iff.1 hmoved
      exact .inl ⟨pointer, hedge, rfl, .inl ⟨rfl, hmove⟩⟩
  | moveLeft =>
      obtain ⟨hmoved, -, rfl⟩ := Effect.mk.inj h
      obtain ⟨pointer, hmove, hedge⟩ := mapError_edge_eq_error_iff.1 hmoved
      exact .inl ⟨pointer, hedge, rfl, .inr ⟨rfl, hmove⟩⟩
  | increment | decrement => simp [perform] at h
  | output =>
      right
      rcases hwrite : writeTo tape.get s.writes with ⟨e | _, writes, events⟩ <;>
        simp only [perform, Streams.write, hwrite, Effect.mk.injEq, Except.error.injEq,
          reduceCtorEq, false_and] at h
      obtain ⟨rfl, -, rfl⟩ := h
      have hlast : LastFailed (writeTo tape.get s.writes).2.2 e :=
        lastFailed_writeTo (by rw [hwrite])
      rw [hwrite] at hlast
      exact ⟨e, rfl, .inl rfl, hlast⟩
  | input =>
      right
      rcases hflush : s.flush with ⟨e | _, s₁, flushed⟩
      · simp only [perform, hflush, Effect.mk.injEq, Except.error.injEq] at h
        obtain ⟨rfl, -, rfl⟩ := h
        have hlast : LastFailed s.flush.events e := lastFailed_flush (by rw [hflush])
        rw [hflush] at hlast
        exact ⟨e, rfl, .inr rfl, hlast⟩
      · rcases hread : readFrom s₁.reads with ⟨e | read, reads, events⟩ <;>
          simp only [perform, hflush, Streams.read, hread, Effect.mk.injEq, Except.error.injEq,
            reduceCtorEq, false_and] at h
        obtain ⟨rfl, -, rfl⟩ := h
        have hlast : LastFailed (readFrom s₁.reads).2.2 e := lastFailed_readFrom (by rw [hread])
        rw [hread] at hlast
        exact ⟨e, rfl, .inr rfl, hlast.append_left flushed⟩

end Action

/-- Why the next instruction of a machine fails, having made the calls in the list. -/
inductive FaultCause (p : Program) (config : Config) (m : Machine) : List Event → Fault → Prop where
  | rightEdge (hmode : config.addressing = .bounded)
      (hcode : p.code[m.address]? = some .moveRight)
      (hpointer : m.tape.pointer + 1 = config.tapeLength.val) :
      FaultCause p config m [] (.pointerOutOfRange m.address config.tapeLength.val)
  | leftEdge (hmode : config.addressing = .bounded)
      (hcode : p.code[m.address]? = some .moveLeft) (hpointer : m.tape.pointer = 0) :
      FaultCause p config m [] (.pointerOutOfRange m.address (-1))
  | strayLoopEnd (hcode : p.code[m.address]? = some .loopEnd) (hloops : m.loops = []) :
      FaultCause p config m [] (.unmatchedLoopEnd m.address)
  | failedCall {made : List Event} {e : StreamError}
      (hcode : p.code[m.address]? = some .output ∨ p.code[m.address]? = some .input)
      (hcall : LastFailed made e) :
      FaultCause p config m made (.stream m.address e)

theorem FaultCause.address?_eq {p : Program} {config : Config} {m : Machine} {made : List Event}
    {fault : Fault} (h : FaultCause p config m made fault) : fault.address? = some m.address := by
  cases h <;> rfl

namespace Machine

variable {p : Program} {config : Config} {eof : EofPolicy} {m : Machine} {s : Streams}
  {a : Attempt} {fault : Fault}

theorem perform_of_fault_carryOut {action : Action}
    (hf : (m.carryOut (action.perform eof m.tape s)).fault = some fault) :
    ∃ obstacle s', fault = obstacle.faultAt m.address ∧
      action.perform eof m.tape s =
        ⟨.error obstacle, s', (m.carryOut (action.perform eof m.tape s)).events⟩ := by
  rcases hperform : action.perform eof m.tape s with ⟨obstacle | tape, s', made⟩ <;>
    rw [hperform] at hf
  · exact ⟨obstacle, s', (Option.some.inj hf).symm, rfl⟩
  · contradiction

theorem Step.cause (hp : p.Paired) (hm : m.tape.MadeFor config) (h : Step p eof m s a)
    (hf : a.fault = some fault) : FaultCause p config m a.events fault := by
  cases h with
  | action hcode =>
      obtain ⟨obstacle, s', rfl, hperform⟩ := perform_of_fault_carryOut hf
      obtain ⟨pointer, rfl, hmade, ⟨rfl, hmove⟩ | ⟨rfl, hmove⟩⟩ | ⟨e, rfl, haction, hcall⟩ :=
        Action.obstacle_cases_of_perform hperform
      · obtain ⟨hmode, hlast, rfl⟩ := Tape.moveRight_eq_error_iff.1 hmove
        rw [hm.length_eq] at hlast
        rw [hmade, hm.length_eq]
        exact .rightEdge (hm.addressing_eq.symm.trans hmode) hcode hlast
      · obtain ⟨hmode, hfirst, rfl⟩ := Tape.moveLeft_eq_error_iff.1 hmove
        rw [hmade]
        exact .leftEdge (hm.addressing_eq.symm.trans hmode) hcode hfirst
      · refine .failedCall ?_ hcall
        rcases haction with rfl | rfl
        · exact .inl hcode
        · exact .inr hcode
  | unpaired hcode hcell htarget =>
      -- every loop start of a program that was accepted has a partner
      obtain ⟨target, ht⟩ := hp.exists_jumpTarget? hcode
      rw [htarget] at ht
      contradiction
  | stray hcode hloops =>
      obtain rfl := Option.some.inj hf
      exact .strayLoopEnd hcode hloops
  | enter | skip | leave | again => contradiction

theorem Step.events_of_pointerOutOfRange (h : Step p eof m s a) {address : Nat} {pointer : Int}
    (hf : a.fault = some (.pointerOutOfRange address pointer)) : a.events = [] := by
  cases h with
  | action =>
      obtain ⟨obstacle, s', hfault, hperform⟩ := perform_of_fault_carryOut hf
      obtain ⟨pointer, -, hmade, -⟩ | ⟨e, rfl, -, -⟩ := Action.obstacle_cases_of_perform hperform
      · exact hmade
      · contradiction
  | enter | skip | unpaired | leave | again | stray => rfl

/-- A run that fails does so at an instruction, whatever the last flush does, or else in that
flush, with all instructions completed. -/
theorem fault_cases_of_run {fuel : Nat} {r : Report} (h : m.run p eof fuel s = some r)
    (hf : r.fault = some fault) :
    ∃ n d, Moment.after p eof n ⟨m, s, []⟩ = some d ∧ d.machine = r.machine ∧
      ((r.stopped = some fault ∧ ∃ s' made flushed,
          d.machine.step? p eof d.streams = some ⟨d.machine, s', made, some fault⟩ ∧
            r.events = d.events ++ made ++ [.flush flushed]) ∨
        (r.stopped = none ∧ p.size ≤ r.machine.address ∧
          ∃ e, fault = .stream r.machine.address e ∧
            r.events = d.events ++ [.flush (.failure e)])) := by
  obtain ⟨n, -, a, ⟨d, hd, ha⟩, rfl⟩ := run_eq_some_iff.1 h
  have hmachine : d.machine = a.machine := (Moment.machine_of_ending? ha).symm
  refine ⟨n, d, hd, hmachine, ?_⟩
  rcases Moment.ending?_eq_some_iff.1 ha with ⟨hend, rfl⟩ | ⟨made, first, hs, hevents, hfirst⟩
  · right
    refine ⟨rfl, step?_eq_none_iff.1 hend, ?_⟩
    rcases flush_cases d.streams with ⟨hflush, -⟩ | ⟨e, hflush, hcall⟩
    · simp [finish, hflush] at hf
    · refine ⟨e, ?_, ?_⟩
      · simpa [finish, hflush, eq_comm] using hf
      · simp only [finish, hcall]
  · left
    -- the fault of the instruction stands, so both outcomes of the flush end the same way
    obtain rfl : first = fault := by simpa [finish, hfirst] using hf
    refine ⟨hfirst, a.streams, made, ?_⟩
    rw [hmachine]
    rcases flush_cases a.streams with ⟨-, hcall⟩ | ⟨e, -, hcall⟩
    · refine ⟨.done, hmachine ▸ hs, ?_⟩
      simp only [finish, hcall, hevents]
    · refine ⟨.failure e, hmachine ▸ hs, ?_⟩
      simp only [finish, hcall, hevents]

/-- Whatever a machine that can come about did before and whatever its streams do, the fault of a
run names the address at which the machine stands.  Either the instruction there failed, for one of
the listed causes, and that fault stands even if the last flush fails too; or all instructions were
completed and the last flush failed.  In both cases the machine is exactly the one that the last
completed instruction left behind. -/
theorem fault_of_run {source : String} (hparse : Program.parse source = .ok p)
    (hm : Reachable p config m) {fuel : Nat} {r : Report}
    (h : m.run p config.eof fuel s = some r) (hf : r.fault = some fault) :
    (∀ address, fault ≠ .unmatchedLoopStart address) ∧
      (∀ length, fault ≠ .tapeAllocation length) ∧
      fault.address? = some r.machine.address ∧
      (∀ first, r.stopped = some first → fault = first) ∧
      ∃ n d, Moment.after p config.eof n ⟨m, s, []⟩ = some d ∧ d.machine = r.machine ∧
        ((∃ s' made flushed,
            r.machine.step? p config.eof d.streams = some ⟨r.machine, s', made, some fault⟩ ∧
              r.events = d.events ++ made ++ [.flush flushed] ∧
              FaultCause p config r.machine made fault) ∨
          (r.stopped = none ∧ r.machine.address = p.size ∧
            ∃ e, fault = .stream p.size e ∧ r.events = d.events ++ [.flush (.failure e)])) := by
  have hp : p.Paired := Program.paired_of_parse hparse
  obtain ⟨n, d, hd, hmachine, hcases⟩ := fault_cases_of_run h hf
  have hreach : Reachable p config r.machine := hm.run h
  rcases hcases with ⟨hstopped, s', made, flushed, hs, hevents⟩ |
    ⟨hstopped, hle, e, rfl, hevents⟩
  · rw [hmachine] at hs
    have hcause : FaultCause p config r.machine made fault :=
      (step_of_step? hs).cause hp hreach.madeFor rfl
    refine ⟨?_, ?_, hcause.address?_eq, ?_, n, d, hd, hmachine, .inl ?_⟩
    · intro address hfault
      rw [hfault] at hcause
      cases hcause
    · intro length hfault
      rw [hfault] at hcause
      cases hcause
    · intro first hfirst
      exact Option.some.inj (hstopped.symm.trans hfirst)
    · exact ⟨s', made, flushed, hs, hevents, hcause⟩
  · have hend : r.machine.address = p.size :=
      le_antisymm (hreach.aligned hp).address_le hle
    refine ⟨by simp, by simp, rfl, by simp [hstopped], n, d, hd, hmachine, .inr ?_⟩
    exact ⟨hstopped, hend, e, by rw [hend], hevents⟩

/-- The second read fails, and so does the last flush; the fault is that of the read. -/
theorem fault_of_run_failed_read :
    ∃ (p : Program) (m : Machine) (s : Streams) (r : Report),
      Program.parse "+,." = .ok p ∧
      Reachable p { tapeLength := ⟨2, by decide, by decide⟩ } m ∧
      m.run p .zero 3 s = some r ∧
      r.fault = some (.stream 1 (.ofKind .brokenPipe)) ∧
      r.machine.address = 1 ∧ r.machine.steps = 1 ∧
      ∃ made, FaultCause p { tapeLength := ⟨2, by decide, by decide⟩ } r.machine made
        (.stream 1 (.ofKind .brokenPipe)) := by
  let config : Config := { tapeLength := ⟨2, by decide, by decide⟩ }
  let p : Program :=
    { code := #[.increment, .input, .output], jumps := #[none, none, none], size_jumps := rfl }
  let m : Machine := { tape := ⟨#[0, 0], 0, .bounded, by decide⟩ }
  let s : Streams :=
    { reads := [.failure (.ofKind .interrupted), .failure (.ofKind .brokenPipe)]
      flushes := [.done, .failure (.ofKind .timedOut)] }
  have hparse : Program.parse "+,." = .ok p := by rfl
  have hm : Reachable p config m := Reachable.new (by rfl)
  let r : Report := (m.run p .zero 3 s).get (by decide)
  have hr : m.run p .zero 3 s = some r := (Option.some_get _).symm
  have hf : r.fault = some (.stream 1 (.ofKind .brokenPipe)) := by decide
  obtain ⟨-, -, haddress, -, n, d, -, -, hcases⟩ := fault_of_run hparse hm hr hf
  have hstopped : r.machine.address = 1 := (Option.some.inj haddress).symm
  refine ⟨p, m, s, r, hparse, hm, hr, hf, hstopped, by decide, ?_⟩
  rcases hcases with ⟨s', made, flushed, -, -, hcause⟩ | ⟨-, hend, -⟩
  · exact ⟨made, hcause⟩
  · exact absurd (hstopped.symm.trans hend) (by decide)

end Machine

end TapeMachine
