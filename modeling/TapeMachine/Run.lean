import TapeMachine.Machine

/-!
# Runs

A run executes instructions until the program ends or an instruction fails, and flushes the output
in either case.  Programs need not end, so every run is given `fuel`, the number of instructions
after which it is given up; more fuel never changes a report.

A machine can be run again from where it stands.  After a failed run this tries the instruction that
failed once more; after a complete one there is only the flush left to do.
-/

namespace TapeMachine

structure Report where
  machine : Machine
  streams : Streams
  /-- The stream calls of the run, the final flush included. -/
  events : List Event
  /-- The fault of the instruction that failed, if one did. -/
  stopped : Option Fault
  /-- The reason for which the whole run failed, if it did. -/
  fault : Option Fault

namespace Report

def output (r : Report) : List UInt8 :=
  r.events.filterMap Event.delivered?

end Report

namespace Machine

/-- Executes instructions until the program ends or an instruction fails.  `events` are the stream
calls made before. -/
def executeAll (p : Program) (eof : EofPolicy) :
    (fuel : Nat) → Machine → Streams → (events : Array Event) → Option Attempt
  | 0, _, _, _ => none
  | fuel + 1, m, s, events =>
      match m.step? p eof s with
      | none => some { machine := m, streams := s, events := events.toList }
      | some ⟨m, s, made, none⟩ => executeAll p eof fuel m s (events.appendList made)
      | some ⟨m, s, made, some fault⟩ =>
          some { machine := m, streams := s, events := (events.appendList made).toList
                 fault := some fault }

theorem executeAll_eq_map (p : Program) (eof : EofPolicy) (fuel : Nat) (m : Machine) (s : Streams)
    (events : Array Event) :
    executeAll p eof fuel m s events =
      (executeAll p eof fuel m s #[]).map fun a =>
        { a with events := events.toList ++ a.events } := by
  induction fuel generalizing m s events with
  | zero => rfl
  | succ fuel ih =>
      simp only [executeAll]
      split
      · simp
      · rw [ih, ih _ _ (Array.appendList _ _)]
        simp [Function.comp_def]
      · simp

/-- An execution that ends within `fuel` instructions ends the same way with more. -/
theorem executeAll_add {p : Program} {eof : EofPolicy} {fuel : Nat} {m : Machine} {s : Streams}
    {events : Array Event} {a : Attempt} (extra : Nat)
    (h : executeAll p eof fuel m s events = some a) :
    executeAll p eof (fuel + extra) m s events = some a := by
  induction fuel generalizing m s events with
  | zero => contradiction
  | succ fuel ih =>
      rw [Nat.succ_add]
      simp only [executeAll] at h ⊢
      split at h
      · next hs => simpa [hs] using h
      · next hs => simpa [hs] using ih h
      · next hs => simpa [hs] using h

/-- Ends a run: the output is flushed, and a failure of that counts only if nothing failed
before. -/
def finish (a : Attempt) : Report :=
  let flushed := a.streams.flush
  { machine := a.machine
    streams := flushed.streams
    events := a.events ++ flushed.events
    stopped := a.fault
    fault := a.fault.or <|
      match flushed.result with
      | .ok () => none
      | .error e => some (.stream a.machine.address e) }

def run (p : Program) (eof : EofPolicy) (fuel : Nat) (m : Machine) (s : Streams) :
    Option Report :=
  (m.executeAll p eof fuel s #[]).map finish

/-- More fuel never changes a report. -/
theorem run_mono {p : Program} {eof : EofPolicy} {fuel more : Nat} {m : Machine} {s : Streams}
    {r : Report} (hle : fuel ≤ more) (h : m.run p eof fuel s = some r) :
    m.run p eof more s = some r := by
  obtain ⟨a, ha, rfl⟩ := Option.map_eq_some_iff.1 h
  obtain ⟨extra, rfl⟩ := Nat.exists_eq_add_of_le hle
  exact Option.map_eq_some_iff.2 ⟨a, executeAll_add extra ha, rfl⟩

def runEach (p : Program) (eof : EofPolicy) (fuel : Nat) :
    Machine → List Streams → Option (List Report)
  | _, [] => some []
  | m, s :: rest => do
      let report ← m.run p eof fuel s
      let reports ← runEach p eof fuel report.machine rest
      return report :: reports

end Machine

end TapeMachine
