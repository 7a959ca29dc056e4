import TapeMachine.Proofs.Block
import TapeMachine.Proofs.Moment

/-!
# Structured execution

The meaning of a block can be given without addresses to jump to and without a stack of loops, by
recursion on the block.  A loop costs one step when it is reached and is skipped if the current cell
is zero; otherwise its body is executed and the cell tested, which is another step, until a test
finds zero.  The machine does the same: its run of a program without stray loop ends stops exactly
if this execution of the program's block stops, and all that can be seen of the two is equal.
-/

namespace TapeMachine

/-- What a block works on, with the steps and the calls made so far. -/
structure World where
  tape : Tape
  streams : Streams
  steps : Nat := 0
  events : List Event := []

/-- What an execution comes to. -/
structure Verdict where
  world : World
  fault : Option Fault := none

namespace World

def tick (w : World) : World :=
  { w with steps := w.steps + 1 }

def perform (eof : EofPolicy) (address : Nat) (action : Action) (w : World) : Verdict :=
  match action.perform eof w.tape w.streams with
  | ⟨.ok tape, s, made⟩ => { world := ⟨tape, s, w.steps + 1, w.events ++ made⟩ }
  | ⟨.error obstacle, s, made⟩ =>
      { world := { w with streams := s, events := w.events ++ made }
        fault := some (obstacle.faultAt address) }

/-- Tests the current cell, which is a step, and goes on with `inside` unless it is zero. -/
def test (inside : World → Option Verdict) (w : World) : Option Verdict :=
  if w.tape.get = 0 then some { world := w.tick } else inside w.tick

/-- The world of a machine at `address` inside the given loops. -/
def moment (w : World) (address : Nat) (loops : List Nat) : Moment :=
  ⟨⟨w.tape, loops, address, w.steps⟩, w.streams, w.events⟩

end World

namespace Verdict

def andThen (v : Verdict) (next : World → Option Verdict) : Option Verdict :=
  match v.fault with
  | none => next v.world
  | some _ => some v

/-- Flushes the output at the end of a run.  A failure of that counts only if nothing failed
before. -/
def finish (size : Nat) (v : Verdict) : Verdict :=
  let flushed := v.world.streams.flush
  { world :=
      { v.world with streams := flushed.streams, events := v.world.events ++ flushed.events }
    fault := v.fault.or <|
      match flushed.result with
      | .ok () => none
      | .error e => some (.stream size e) }

end Verdict

namespace Block

/-- Executes the body of a loop and tests the current cell, until a test finds zero; `none` if that
takes more than `fuel` rounds. -/
def rounds (body : World → Option Verdict) : (fuel : Nat) → World → Option Verdict
  | 0, _ => none
  | fuel + 1, w =>
      (body w).bind fun v => v.andThen (World.test (rounds body fuel))

/-- Executes a block that stands at `address`; `none` if a loop takes more than `fuel` rounds. -/
def eval (eof : EofPolicy) (fuel : Nat) : Block → (address : Nat) → World → Option Verdict
  | done, _, w => some { world := w }
  | act action rest, address, w =>
      (w.perform eof address action).andThen (rest.eval eof fuel (address + 1))
  | loop body rest, address, w =>
      (w.test (rounds (body.eval eof fuel (address + 1)) fuel)).bind fun v =>
        v.andThen (rest.eval eof fuel (address + 1 + body.size + 1))

def run (eof : EofPolicy) (fuel : Nat) (b : Block) (tape : Tape) (s : Streams) : Option Verdict :=
  (b.eval eof fuel 0 { tape, streams := s }).map (Verdict.finish b.size)

end Block

/-- What can be seen of an attempt from outside. -/
def Attempt.verdict (a : Attempt) : Verdict :=
  { world := ⟨a.machine.tape, a.streams, a.machine.steps, a.events⟩, fault := a.fault }

/-- What can be seen of a run from outside. -/
def Report.verdict (r : Report) : Verdict :=
  { world := ⟨r.machine.tape, r.streams, r.machine.steps, r.events⟩, fault := r.fault }

/-! ## More fuel never changes a verdict -/

theorem World.test_mono {inside inside' : World → Option Verdict} {w : World} {v : Verdict}
    (hinside : ∀ w v, inside w = some v → inside' w = some v) (h : w.test inside = some v) :
    w.test inside' = some v := by
  unfold test at h ⊢
  split at h
  · next hcell => rwa [if_pos hcell]
  · next hcell =>
      rw [if_neg hcell]
      exact hinside _ _ h

namespace Verdict

theorem andThen_eq_some_iff {v u : Verdict} {next : World → Option Verdict} :
    v.andThen next = some u ↔
      (v.fault = none ∧ next v.world = some u) ∨ (v.fault.isSome ∧ u = v) := by
  obtain ⟨w, fault | _⟩ := v
  · simp [andThen]
  · simp [andThen, eq_comm]

theorem andThen_mono {v u : Verdict} {next next' : World → Option Verdict}
    (hnext : ∀ w u, next w = some u → next' w = some u) (h : v.andThen next = some u) :
    v.andThen next' = some u := by
  rw [andThen_eq_some_iff] at h ⊢
  exact h.imp_left fun ⟨hfault, hu⟩ => ⟨hfault, hnext _ _ hu⟩

end Verdict

namespace Block

open Verdict

theorem rounds_mono {body body' : World → Option Verdict} {fuel more : Nat} {w : World}
    {v : Verdict} (hbody : ∀ w v, body w = some v → body' w = some v) (hle : fuel ≤ more)
    (h : rounds body fuel w = some v) : rounds body' more w = some v := by
  induction fuel generalizing more w v with
  | zero => contradiction
  | succ fuel ih =>
      obtain ⟨more, rfl⟩ := Nat.exists_eq_add_of_le' hle
      obtain ⟨u, hu, hv⟩ := Option.bind_eq_some_iff.1 h
      refine Option.bind_eq_some_iff.2 ⟨u, hbody w u hu, andThen_mono (fun w v => ?_) hv⟩
      exact World.test_mono fun w v => ih (Nat.le_add_left fuel more)

theorem eval_mono {eof : EofPolicy} {fuel more : Nat} (hle : fuel ≤ more) {b : Block}
    {address : Nat} {w : World} {v : Verdict} (h : b.eval eof fuel address w = some v) :
    b.eval eof more address w = some v := by
  induction b generalizing address w v with
  | done => exact h
  | act action rest ih => exact andThen_mono (fun w v => ih) h
  | loop body rest ihbody ihrest =>
      obtain ⟨u, hu, hv⟩ := Option.bind_eq_some_iff.1 h
      refine Option.bind_eq_some_iff.2 ⟨u, ?_, andThen_mono (fun w v => ihrest) hv⟩
      exact World.test_mono (fun w v => rounds_mono (fun w v => ihbody) hle) hu

end Block

end TapeMachine
