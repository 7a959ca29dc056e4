import TapeMachine.Proofs.Replay
import TapeMachine.Proofs.Simulation

/-!
# Interruptions

An interrupted read or write is made again at once, and nothing else comes of it.  So all
interruptions may be struck from the scripts: every run has the same result, and of its calls only
the interrupted ones are missing.  The script of the flushes is left alone, since an interrupted
flush is a failure like any other.
-/

namespace TapeMachine

def ReadOutcome.isInterrupted : ReadOutcome → Bool
  | failure e => e.isInterruption
  | _ => false

def WriteOutcome.isInterrupted : WriteOutcome → Bool
  | failure e => e.isInterruption
  | _ => false

/-- Whether a call was a read or a write that is to be made again. -/
def Event.isInterrupted : Event → Bool
  | read outcome => outcome.isInterrupted
  | write _ outcome => outcome.isInterrupted
  | flush _ => false

/-- The same scripts without the interruptions of reads and writes. -/
def Streams.uninterrupted (s : Streams) : Streams where
  reads := s.reads.filter fun outcome => !outcome.isInterrupted
  writes := s.writes.filter fun outcome => !outcome.isInterrupted
  flushes := s.flushes

/-- The same report without the interrupted calls. -/
def Report.uninterrupted (r : Report) : Report where
  machine := r.machine
  streams := r.streams.uninterrupted
  events := r.events.filter fun call => !call.isInterrupted
  stopped := r.stopped
  fault := r.fault

namespace Streams

theorem readFrom_uninterrupted (script : List ReadOutcome) :
    readFrom (script.filter fun outcome => !outcome.isInterrupted) =
      ((readFrom script).1, (readFrom script).2.1.filter fun outcome => !outcome.isInterrupted,
        (readFrom script).2.2.filter fun call => !call.isInterrupted) := by
  induction script with
  | nil => rfl
  | cons outcome rest ih =>
      cases outcome with
      | byte value => rfl
      | endOfInput => rfl
      | failure e =>
          by_cases hi : e.isInterruption
          · -- the call is struck from the calls as its outcome is from the script
            rw [readFrom_interrupted hi, List.filter_cons_of_neg, List.filter_cons_of_neg, ih]
            · simpa [Event.isInterrupted, ReadOutcome.isInterrupted] using hi
            · simpa [ReadOutcome.isInterrupted] using hi
          · rw [readFrom_failure hi, List.filter_cons_of_pos, List.filter_cons_of_pos,
              readFrom_failure hi, List.filter_nil]
            · simpa [Event.isInterrupted, ReadOutcome.isInterrupted] using hi
            · simpa [ReadOutcome.isInterrupted] using hi

theorem writeTo_uninterrupted (value : UInt8) (script : List WriteOutcome) :
    writeTo value (script.filter fun outcome => !outcome.isInterrupted) =
      ((writeTo value script).1,
        (writeTo value script).2.1.filter fun outcome => !outcome.isInterrupted,
        (writeTo value script).2.2.filter fun call => !call.isInterrupted) := by
  induction script with
  | nil => rfl
  | cons outcome rest ih =>
      cases outcome with
      | accepted => rfl
      | refused => rfl
      | failure e =>
          by_cases hi : e.isInterruption
          · rw [writeTo_interrupted hi, List.filter_cons_of_neg, List.filter_cons_of_neg, ih]
            · simpa [Event.isInterrupted, WriteOutcome.isInterrupted] using hi
            · simpa [WriteOutcome.isInterrupted] using hi
          · rw [writeTo_failure hi, List.filter_cons_of_pos, List.filter_cons_of_pos,
              writeTo_failure hi, List.filter_nil]
            · simpa [Event.isInterrupted, WriteOutcome.isInterrupted] using hi
            · simpa [WriteOutcome.isInterrupted] using hi

theorem read_uninterrupted (s : Streams) :
    s.uninterrupted.read =
      { result := s.read.result, streams := s.read.streams.uninterrupted
        events := s.read.events.filter fun call => !call.isInterrupted } := by
  simp only [read, uninterrupted, readFrom_uninterrupted]

theorem write_uninterrupted (s : Streams) (value : UInt8) :
    s.uninterrupted.write value =
      { result := (s.write value).result, streams := (s.write value).streams.uninterrupted
        events := (s.write value).events.filter fun call => !call.isInterrupted } := by
  simp only [write, uninterrupted, writeTo_uninterrupted]

theorem flush_uninterrupted (s : Streams) :
    s.uninterrupted.flush =
      { result := s.flush.result, streams := s.flush.streams.uninterrupted
        events := s.flush.events.filter fun call => !call.isInterrupted } := by
  obtain ⟨reads, writes, _ | ⟨_ | e, flushes⟩⟩ := s <;> rfl

end Streams

open Streams

theorem Event.delivered?_of_isInterrupted {call : Event} (h : call.isInterrupted) :
    call.delivered? = none := by
  cases call with
  | read outcome => rfl
  | flush outcome => rfl
  | write value outcome =>
      cases outcome with
      | accepted => contradiction
      | refused => rfl
      | failure e => rfl

/-- Only calls that delivered nothing are missing. -/
theorem Report.output_uninterrupted (r : Report) : r.uninterrupted.output = r.output := by
  rw [output, output, uninterrupted, List.filterMap_filter]
  refine List.filterMap_congr fun call _ => ?_
  by_cases hi : call.isInterrupted
  · rw [hi, Event.delivered?_of_isInterrupted hi]
    rfl
  · rw [if_pos (by simpa using hi)]

/-- Streams and the same streams without their interruptions cannot be told apart. -/
theorem simulation_uninterrupted (eof : EofPolicy) :
    Simulation eof eof id (Option.guard fun call => !call.isInterrupted)
      fun tape s tape' s' => tape' = tape ∧ s' = s.uninterrupted where
  get := by
    rintro _ tape s _ ⟨rfl, rfl⟩
    rfl
  flush := by
    rintro _ tape s _ ⟨rfl, rfl⟩
    rw [flush_uninterrupted, List.filterMap_eq_filter]
    exact ⟨rfl, rfl, rfl, rfl⟩
  perform := by
    rintro _ tape s _ ⟨rfl, rfl⟩ action
    cases action with
    | moveRight | moveLeft =>
        simp only [id, Action.perform]
        generalize Except.mapError Obstacle.edge _ = result
        rcases result with obstacle | next
        · exact .stopped ⟨rfl, rfl⟩
        · exact .completed ⟨rfl, rfl⟩
    | increment | decrement => exact .completed ⟨rfl, rfl⟩
    | output =>
        simp only [id, Action.perform, write_uninterrupted, ← List.filterMap_eq_filter]
        rcases s.write tape.get with ⟨e | _, s₁, events⟩
        · exact .stopped ⟨rfl, rfl⟩
        · exact .completed ⟨rfl, rfl⟩
    | input =>
        simp only [id, Action.perform, flush_uninterrupted, ← List.filterMap_eq_filter]
        rcases s.flush with ⟨e | _, s₁, flushed⟩
        · exact .stopped ⟨rfl, rfl⟩
        · simp only [read_uninterrupted, ← List.filterMap_eq_filter]
          rcases s₁.read with ⟨e | read, s₂, events⟩ <;> simp only [← List.filterMap_append]
          · exact .stopped ⟨rfl, rfl⟩
          · exact .completed ⟨rfl, rfl⟩

namespace Machine

variable (p : Program) (eof : EofPolicy) (fuel : Nat) (m : Machine)

theorem run_uninterrupted (s : Streams) :
    m.run p eof fuel s.uninterrupted = (m.run p eof fuel s).map Report.uninterrupted := by
  have hrun := (simulation_uninterrupted eof).run (p := p) (m := m) (s := s) ⟨rfl, rfl⟩ fuel
  rw [Program.mapAction_id] at hrun
  generalize m.run p eof fuel s = stopped at hrun ⊢
  generalize m.run p eof fuel s.uninterrupted = stopped' at hrun ⊢
  cases hrun with
  | none => rfl
  | @some r r' hr =>
      obtain ⟨hmachine, ⟨htape, hstreams⟩, hevents, hstopped, hfault⟩ := hr
      obtain ⟨m', streams, events, stopped, fault⟩ := r'
      rw [htape] at hmachine
      rw [List.filterMap_eq_filter] at hevents
      subst hmachine hstreams hevents hstopped hfault
      rfl

theorem callsWithin_uninterrupted (s : Streams) :
    m.callsWithin p eof fuel s.uninterrupted =
      (m.callsWithin p eof fuel s).filter fun call => !call.isInterrupted := by
  have hcalls :=
    (simulation_uninterrupted eof).callsWithin (p := p) (m := m) (s := s) ⟨rfl, rfl⟩ fuel
  rwa [Program.mapAction_id, List.filterMap_eq_filter] at hcalls

theorem runEach_uninterrupted (streams : List Streams) :
    m.runEach p eof fuel (streams.map Streams.uninterrupted) =
      (m.runEach p eof fuel streams).map (List.map Report.uninterrupted) := by
  induction streams generalizing m with
  | nil => rfl
  | cons s streams ih =>
      simp only [List.map_cons, runEach, run_uninterrupted]
      cases m.run p eof fuel s with
      | none => rfl
      | some r =>
          -- the next run begins with the same machine
          have hrest := ih r.machine
          simp only [Option.map_some, Option.bind_eq_bind, Option.bind_some, Report.uninterrupted,
            hrest]
          cases r.machine.runEach p eof fuel streams <;> rfl

/-- The runs of a machine do not depend on how often their reads and writes are interrupted.  If all
interruptions are struck from the scripts of reads and writes, every run stops as before, with the
same machine and the same fault, and has delivered the same bytes; of its calls only the interrupted
ones are missing.  Whether a run stops or not, the calls made at any time are the same but for
these. -/
theorem interruptions_are_invisible (streams : List Streams) :
    m.runEach p eof fuel (streams.map Streams.uninterrupted) =
        (m.runEach p eof fuel streams).map (List.map Report.uninterrupted) ∧
      (∀ r : Report, r.uninterrupted.output = r.output) ∧
      ∀ n s, m.callsWithin p eof n s.uninterrupted =
        (m.callsWithin p eof n s).filter fun call => !call.isInterrupted :=
  ⟨runEach_uninterrupted p eof fuel m streams, Report.output_uninterrupted,
    fun n s => callsWithin_uninterrupted p eof n m s⟩

end Machine

end TapeMachine
