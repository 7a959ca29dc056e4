import Mathlib.Order.Basic
import TapeMachine.Run
import TapeMachine.Proofs.Step

/-!
# Moments of a run

A moment lies between two instructions of a run: it consists of the machine, of what the streams
still hold and of the calls made so far.  A run with enough fuel is a number of completed
instructions, after which the program is at its end or an instruction fails, and the final flush.
This description is free of fuel, and the machine's own step count is the number of completed
instructions.

The machines that are `Reachable` are all that can come about in any sequence of runs.
-/

namespace TapeMachine

/-- A run between two of its instructions. -/
structure Moment where
  machine : Machine
  streams : Streams
  events : List Event := []

namespace Moment

section Definitions

variable (p : Program) (eof : EofPolicy)

/-- The moment behind the next instruction, if there is one and it is completed. -/
def next? (c : Moment) : Option Moment :=
  match c.machine.step? p eof c.streams with
  | some ⟨m, s, made, none⟩ => some ⟨m, s, c.events ++ made⟩
  | _ => none

/-- How the execution ends here, if no further instruction is completed. -/
def ending? (c : Moment) : Option Attempt :=
  match c.machine.step? p eof c.streams with
  | none => some { machine := c.machine, streams := c.streams, events := c.events }
  | some ⟨m, s, made, some fault⟩ =>
      some { machine := m, streams := s, events := c.events ++ made, fault := some fault }
  | some ⟨_, _, _, none⟩ => none

/-- The moment that is reached when `n` instructions have been completed. -/
def after : (n : Nat) → Moment → Option Moment
  | 0, c => some c
  | n + 1, c => (c.next? p eof).bind (after n)

end Definitions

variable {p : Program} {eof : EofPolicy} {c d : Moment} {a : Attempt} {n : Nat}

theorem next?_eq_some_iff :
    c.next? p eof = some d ↔
      ∃ made, c.machine.step? p eof c.streams = some ⟨d.machine, d.streams, made, none⟩ ∧
        d.events = c.events ++ made := by
  obtain ⟨m, s, events⟩ := d
  unfold next?
  split
  · next m' s' made h =>
      simp only [h, Option.some.injEq, mk.injEq, Attempt.mk.injEq, and_true]
      constructor
      · rintro ⟨rfl, rfl, rfl⟩
        exact ⟨made, ⟨rfl, rfl, rfl⟩, rfl⟩
      · rintro ⟨_, ⟨rfl, rfl, rfl⟩, rfl⟩
        exact ⟨rfl, rfl, rfl⟩
  · next hne =>
      constructor
      · intro h
        contradiction
      · rintro ⟨made, h, -⟩
        exact absurd h (hne _ _ _)

theorem ending?_eq_some_iff :
    c.ending? p eof = some a ↔
      (c.machine.step? p eof c.streams = none ∧
        a = { machine := c.machine, streams := c.streams, events := c.events }) ∨
      ∃ made fault,
        c.machine.step? p eof c.streams = some ⟨a.machine, a.streams, made, some fault⟩ ∧
          a.events = c.events ++ made ∧ a.fault = some fault := by
  obtain ⟨m, s, events, fault⟩ := a
  unfold ending?
  split
  · next h => simp [h, eq_comm]
  · next m' s' made fault' h =>
      simp only [h, Option.some.injEq, Attempt.mk.injEq, reduceCtorEq, false_and, false_or]
      constructor
      · rintro ⟨rfl, rfl, rfl, rfl⟩
        exact ⟨made, fault', ⟨rfl, rfl, rfl, rfl⟩, rfl, rfl⟩
      · rintro ⟨_, _, ⟨rfl, rfl, rfl, rfl⟩, rfl, rfl⟩
        exact ⟨rfl, rfl, rfl, rfl⟩
  · next h => simp [h]

theorem next?_eq_none_of_ending? (h : c.ending? p eof = some a) : c.next? p eof = none := by
  rw [Option.eq_none_iff_forall_ne_some]
  intro d hd
  obtain ⟨made, hs, -⟩ := next?_eq_some_iff.1 hd
  rcases ending?_eq_some_iff.1 h with ⟨hnone, -⟩ | ⟨_, _, hfault, -⟩
  · simp [hs] at hnone
  · simp [hs] at hfault

@[simp] theorem after_zero : c.after p eof 0 = some c := rfl

theorem after_succ : c.after p eof (n + 1) = (c.next? p eof).bind (after p eof n) := rfl

theorem after_add (m n : Nat) (c : Moment) :
    c.after p eof (m + n) = (c.after p eof m).bind (after p eof n) := by
  induction m generalizing c with
  | zero => rw [Nat.zero_add, after_zero, Option.bind_some]
  | succ m ih =>
      rw [Nat.succ_add, after_succ, after_succ, Option.bind_assoc]
      exact Option.bind_congr fun c _ => ih c

theorem after_trans {m : Nat} {e : Moment} (hc : c.after p eof m = some d)
    (hd : d.after p eof n = some e) : c.after p eof (m + n) = some e := by
  rw [after_add, hc, Option.bind_some, hd]

theorem after_one (h : c.next? p eof = some d) : c.after p eof 1 = some d := by
  rw [after_succ, h]
  rfl

theorem after_succ_eq_some_iff :
    c.after p eof (n + 1) = some d ↔ ∃ e, c.next? p eof = some e ∧ e.after p eof n = some d := by
  rw [after_succ, Option.bind_eq_some_iff]

theorem steps_of_next? (h : c.next? p eof = some d) :
    d.machine.steps = c.machine.steps + 1 := by
  obtain ⟨made, hs, -⟩ := next?_eq_some_iff.1 h
  rcases (Machine.step_of_step? hs).completed_or_unchanged with ⟨-, hsteps⟩ | ⟨hfault, -⟩
  · exact hsteps
  · contradiction

theorem steps_of_after (h : c.after p eof n = some d) :
    d.machine.steps = c.machine.steps + n := by
  induction n generalizing c with
  | zero =>
      obtain rfl : c = d := Option.some.inj h
      rfl
  | succ n ih =>
      obtain ⟨e, he, hd⟩ := after_succ_eq_some_iff.1 h
      have hrest := ih hd
      have hfirst := steps_of_next? he
      omega

theorem machine_of_ending? (h : c.ending? p eof = some a) : a.machine = c.machine := by
  rcases ending?_eq_some_iff.1 h with ⟨-, rfl⟩ | ⟨made, fault, hs, -⟩
  · rfl
  · have hm := (Machine.step_of_step? hs).machine_of_fault rfl
    exact hm

/-- After `n` more instructions the execution ends, with the last attempt `a`. -/
def EndsAfter (p : Program) (eof : EofPolicy) (n : Nat) (c : Moment) (a : Attempt) : Prop :=
  ∃ d, c.after p eof n = some d ∧ d.ending? p eof = some a

theorem EndsAfter.of_ending? (h : c.ending? p eof = some a) : EndsAfter p eof 0 c a :=
  ⟨c, rfl, h⟩

theorem EndsAfter.of_after {m : Nat} (hc : c.after p eof m = some d)
    (hd : EndsAfter p eof n d a) : EndsAfter p eof (m + n) c a := by
  obtain ⟨e, he, hending⟩ := hd
  exact ⟨e, after_trans hc he, hending⟩

/-- An execution that ends passes through every moment it can reach. -/
theorem EndsAfter.drop {m : Nat} (h : EndsAfter p eof n c a) (hd : c.after p eof m = some d) :
    ∃ k, n = m + k ∧ EndsAfter p eof k d a := by
  obtain ⟨e, he, hending⟩ := h
  rcases Nat.lt_or_ge n m with hlt | hle
  · -- nothing lies behind the end
    exfalso
    obtain ⟨k, rfl⟩ := Nat.exists_eq_add_of_lt hlt
    rw [Nat.add_assoc, after_add, he, Option.bind_some, after_succ,
      next?_eq_none_of_ending? hending] at hd
    contradiction
  · obtain ⟨k, rfl⟩ := Nat.exists_eq_add_of_le hle
    rw [after_add, hd, Option.bind_some] at he
    exact ⟨k, rfl, e, he, hending⟩

theorem EndsAfter.unique {m : Nat} {b : Attempt} (h : EndsAfter p eof n c a)
    (h' : EndsAfter p eof m c b) : a = b := by
  obtain ⟨d, hd, hending⟩ := h'
  obtain ⟨k, -, e, he, ha⟩ := h.drop hd
  cases k with
  | zero =>
      obtain rfl : d = e := Option.some.inj he
      exact Option.some.inj (ha.symm.trans hending)
  | succ k =>
      rw [after_succ, next?_eq_none_of_ending? hending] at he
      contradiction

end Moment

namespace Machine

open Moment

variable {p : Program} {eof : EofPolicy} {m : Machine} {s : Streams}

theorem executeAll_eq_some_iff {fuel : Nat} {events : Array Event} {a : Attempt} :
    executeAll p eof fuel m s events = some a ↔
      ∃ n < fuel, EndsAfter p eof n ⟨m, s, events.toList⟩ a := by
  induction fuel generalizing m s events with
  | zero => simp [executeAll]
  | succ fuel ih =>
      rw [Nat.exists_lt_succ_left]
      simp only [executeAll, EndsAfter, after_zero, Option.some.injEq, exists_eq_left',
        after_succ]
      split
      · next hs => simp [next?, ending?, hs]
      · next m' s' made hs =>
          rw [ih]
          simp [next?, ending?, hs, EndsAfter]
      · next hs => simp [next?, ending?, hs]

theorem run_eq_some_iff {fuel : Nat} {r : Report} :
    m.run p eof fuel s = some r ↔
      ∃ n < fuel, ∃ a, EndsAfter p eof n ⟨m, s, []⟩ a ∧ finish a = r := by
  rw [run, Option.map_eq_some_iff]
  simp only [executeAll_eq_some_iff]
  constructor
  · rintro ⟨a, ⟨n, hn, ha⟩, hr⟩
    exact ⟨n, hn, a, ha, hr⟩
  · rintro ⟨n, hn, a, ha, hr⟩
    exact ⟨a, ⟨n, hn, ha⟩, hr⟩

/-- A run stops with the report `r` if its execution ends and the final flush then gives `r`. -/
theorem exists_run_eq_some_iff {r : Report} :
    (∃ fuel, m.run p eof fuel s = some r) ↔
      ∃ n a, EndsAfter p eof n ⟨m, s, []⟩ a ∧ finish a = r := by
  simp only [run_eq_some_iff]
  constructor
  · rintro ⟨-, n, -, a, h⟩
    exact ⟨n, a, h⟩
  · rintro ⟨n, a, h⟩
    exact ⟨n + 1, n, Nat.lt_succ_self n, a, h⟩

/-- The fault of a run is that of its last instruction, unless only the final flush failed. -/
theorem finish_fault_cases {a : Attempt} {r : Report} (h : finish a = r) :
    r.fault = a.fault ∨ (a.fault = none ∧ ∃ e, r.fault = some (.stream a.machine.address e)) := by
  subst h
  cases hf : a.fault with
  | some fault => exact .inl (by simp [finish, hf])
  | none =>
      cases hflush : a.streams.flush.result with
      | ok => exact .inl (by simp [finish, hf, hflush])
      | error e => exact .inr ⟨rfl, e, by simp [finish, hf, hflush]⟩

theorem new_eq_ok_iff {config : Config} :
    new config = .ok m ↔
      ∃ tape, Tape.allocate? config.tapeLength config.addressing = some tape ∧ m = { tape } := by
  unfold new
  split
  · next tape h => simp [h, eq_comm]
  · next h => simp [h]

theorem new_eq_error_iff {config : Config} {fault : Fault} :
    new config = .error fault ↔
      Tape.allocate? config.tapeLength config.addressing = none ∧
        fault = .tapeAllocation config.tapeLength.val := by
  unfold new
  split
  · next tape h => simp [h]
  · next h => simp [h, eq_comm]

/-- The machines that come about when a new machine executes instructions, completed or not, in
whatever runs they lie and whatever the streams do at each of them. -/
inductive Reachable (p : Program) (config : Config) : Machine → Prop where
  | new {m : Machine} (h : Machine.new config = .ok m) : Reachable p config m
  | step {m : Machine} {s : Streams} {a : Attempt} (hm : Reachable p config m)
      (h : m.step? p config.eof s = some a) : Reachable p config a.machine

theorem Reachable.after {config : Config} {c d : Moment} {n : Nat}
    (hc : Reachable p config c.machine) (h : c.after p config.eof n = some d) :
    Reachable p config d.machine := by
  induction n generalizing c with
  | zero =>
      obtain rfl : c = d := Option.some.inj h
      exact hc
  | succ n ih =>
      obtain ⟨e, he, hd⟩ := after_succ_eq_some_iff.1 h
      obtain ⟨made, hs, -⟩ := next?_eq_some_iff.1 he
      exact ih (Reachable.step hc hs) hd

/-- A run is decided where its last attempt is made, and that is a moment it reached. -/
theorem Reachable.exists_ending {config : Config} {fuel : Nat} {r : Report}
    (hm : Reachable p config m) (h : m.run p config.eof fuel s = some r) :
    ∃ (d : Moment) (a : Attempt),
      Reachable p config d.machine ∧ d.ending? p config.eof = some a ∧ finish a = r := by
  obtain ⟨n, -, a, ⟨d, hd, ha⟩, hr⟩ := run_eq_some_iff.1 h
  exact ⟨d, a, Reachable.after (c := ⟨m, s, []⟩) hm hd, ha, hr⟩

theorem Reachable.run {config : Config} {fuel : Nat} {r : Report} (hm : Reachable p config m)
    (h : m.run p config.eof fuel s = some r) : Reachable p config r.machine := by
  obtain ⟨d, a, hd, ha, rfl⟩ := hm.exists_ending h
  rwa [← machine_of_ending? ha] at hd

end Machine

end TapeMachine
