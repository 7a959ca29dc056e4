import Mathlib.Data.List.Forall2
import TapeMachine.Proofs.FaultCause

/-!
# Machines at rest

A machine is at rest if its next attempt completes no instruction and makes no call, whatever the
streams may do: either its program is at the end, or the instruction it stands at fails for a reason
that lies in the machine.  A run of such a machine makes one call, the last flush, and leaves the
machine as it is, so it is at rest in every later run too.  All runs that end, other than by a
failed call of an instruction, leave the machine at rest.
-/

namespace TapeMachine

/-- What a run reports if only the last flush could fail. -/
def FlushOutcome.fault? (address : Nat) : FlushOutcome → Option Fault
  | .done => none
  | .failure e => some (.stream address e)

/-- The report of a run that flushed once and did nothing else to the machine `m` and the streams
`s`.  Its fault is decided by what the flush did. -/
structure Report.OnlyFlushed (m : Machine) (fault? : FlushOutcome → Option Fault) (s : Streams)
    (r : Report) : Prop where
  machine_eq : r.machine = m
  streams_eq : r.streams = { s with flushes := s.flushes.tail }
  events_eq : r.events = [.flush (s.flushes.headD .done)]
  fault_eq : r.fault = fault? (s.flushes.headD .done)

namespace Machine

/-- Whatever the streams may do, the machine completes nothing more and makes no call.  What keeps
it is `stop`, or else the end of the program. -/
def AtRest (p : Program) (eof : EofPolicy) (m : Machine) (stop : Option Fault) : Prop :=
  ∀ s, Moment.ending? p eof ⟨m, s, []⟩ = some { machine := m, streams := s, fault := stop }

variable {p : Program} {config : Config} {eof : EofPolicy} {m : Machine} {s : Streams}

theorem atRest_of_end (h : p.size ≤ m.address) : AtRest p eof m none := by
  intro s
  exact Moment.ending?_eq_some_iff.2 (.inl ⟨step?_eq_none_iff.2 h, rfl⟩)

theorem atRest_of_step {fault : Fault}
    (h : ∀ s, Step p eof m s { machine := m, streams := s, fault := some fault }) :
    AtRest p eof m (some fault) := by
  intro s
  exact Moment.ending?_eq_some_iff.2 (.inr ⟨[], fault, (h s).step?_eq, rfl, rfl⟩)

/-- The ends of a bounded tape and a loop end with nothing to close stay where they are. -/
theorem atRest_of_cause {made : List Event} {fault : Fault} (hm : m.tape.MadeFor config)
    (h : FaultCause p config m made fault) (hfault : ∀ address e, fault ≠ .stream address e) :
    AtRest p eof m (some fault) := by
  apply atRest_of_step
  intro s
  cases h with
  | rightEdge hmode hcode hpointer =>
      have hmove : m.tape.moveRight = .error config.tapeLength.val :=
        Tape.moveRight_eq_error_iff.2 ⟨hm.addressing_eq.trans hmode,
          hpointer.trans hm.length_eq.symm, by rw [hm.length_eq]⟩
      have hstep : Step p eof m s (m.carryOut (Action.moveRight.perform eof m.tape s)) :=
        .action hcode
      rwa [Action.perform, hmove] at hstep
  | leftEdge hmode hcode hpointer =>
      have hmove : m.tape.moveLeft = .error (-1) :=
        Tape.moveLeft_eq_error_iff.2 ⟨hm.addressing_eq.trans hmode, hpointer, rfl⟩
      have hstep : Step p eof m s (m.carryOut (Action.moveLeft.perform eof m.tape s)) :=
        .action hcode
      rwa [Action.perform, hmove] at hstep
  | strayLoopEnd hcode hloops => exact .stray hcode hloops
  | failedCall => exact absurd rfl (hfault _ _)

/-- What a flush does is what its script says next. -/
theorem finish_at_rest (m : Machine) (s : Streams) (stop : Option Fault) :
    (finish { machine := m, streams := s, fault := stop }).OnlyFlushed m
      (fun outcome => stop.or (outcome.fault? m.address)) s := by
  obtain ⟨reads, writes, _ | ⟨_ | e, flushes⟩⟩ := s
  all_goals exact ⟨rfl, rfl, rfl, rfl⟩

theorem AtRest.run {stop : Option Fault} (h : AtRest p eof m stop) {fuel : Nat} (hfuel : 0 < fuel)
    (s : Streams) :
    m.run p eof fuel s = some (finish { machine := m, streams := s, fault := stop }) :=
  run_eq_some_iff.2 ⟨0, hfuel, _, .of_ending? (h s), rfl⟩

theorem AtRest.runEach {stop : Option Fault} (h : AtRest p eof m stop) {fuel : Nat}
    (hfuel : 0 < fuel) (scripts : List Streams) :
    ∃ reports, m.runEach p eof fuel scripts = some reports ∧
      List.Forall₂ (Report.OnlyFlushed m fun outcome => stop.or (outcome.fault? m.address))
        scripts reports := by
  induction scripts with
  | nil => exact ⟨[], rfl, .nil⟩
  | cons s scripts ih =>
      obtain ⟨reports, hreports, hall⟩ := ih
      refine ⟨_ :: reports, ?_, .cons (finish_at_rest m s stop) hall⟩
      -- the next run begins with the machine that the first one left as it was
      have hrest : (finish { machine := m, streams := s, fault := stop }).machine.runEach p eof fuel
          scripts = some reports := hreports
      rw [Machine.runEach, h.run hfuel, Option.bind_eq_bind, Option.bind_some, hrest]
      rfl

/-- A run ends at the end of the program, where only its last flush can fail, or at an instruction
that fails for one of the listed causes. -/
theorem end_or_cause_of_run {fuel : Nat} {r : Report} (hp : p.Paired) (hm : Reachable p config m)
    (h : m.run p config.eof fuel s = some r) :
    (r.stopped = none ∧ r.machine.address = p.size ∧
      (r.fault = none ∨ ∃ e, r.fault = some (.stream p.size e))) ∨
    ∃ made fault, r.stopped = some fault ∧ r.fault = some fault ∧ r.machine.address < p.size ∧
      r.machine.tape.MadeFor config ∧ FaultCause p config r.machine made fault := by
  obtain ⟨d, a, hd, ha, hr⟩ := hm.exists_ending h
  have hstopped : r.stopped = a.fault := by rw [← hr]; rfl
  have hmachine : r.machine = d.machine := by rw [← hr]; exact Moment.machine_of_ending? ha
  rcases Moment.ending?_eq_some_iff.1 ha with ⟨hend, rfl⟩ | ⟨made, fault, hs, -, hfault⟩
  · left
    have hsize : d.machine.address = p.size :=
      le_antisymm (hd.aligned hp).address_le (step?_eq_none_iff.1 hend)
    refine ⟨hstopped, hmachine ▸ hsize, ?_⟩
    rw [← hsize]
    rcases finish_fault_cases hr with hfault | ⟨-, e, hfault⟩
    · exact .inl hfault
    · exact .inr ⟨e, hfault⟩
  · right
    have hstep := step_of_step? hs
    refine ⟨made, fault, hstopped.trans hfault, ?_, ?_, ?_, ?_⟩
    · rcases finish_fault_cases hr with hsame | ⟨hnone, -⟩
      · exact hsame.trans hfault
      · rw [hfault] at hnone
        contradiction
    · exact hmachine ▸ hstep.lt_size
    · exact hmachine ▸ hd.madeFor
    · exact hmachine ▸ hstep.cause hp hd.madeFor rfl

/-- Machines whose run has ended are absorbing, unless a call of an instruction failed.  If a run
has completed every instruction, that is, if it reported no fault or one at the length of the
program, then each later run makes one call, the flush, reports a fault at the length of the program
if that flush fails and none otherwise, and changes no part of the machine.  If a run has reported
an end of the tape or a loop end with nothing to close, then each later run makes that one call too,
reports the very same fault whatever the flush does, and changes no part of the machine. -/
theorem ended_machines_are_absorbing {source : String} (hparse : Program.parse source = .ok p)
    (hm : Reachable p config m) {fuel : Nat} {r : Report}
    (h : m.run p config.eof fuel s = some r) :
    (r.stopped = none ↔ r.fault = none ∨ ∃ e, r.fault = some (.stream p.size e)) ∧
    (r.stopped = none → ∀ more > 0, ∀ scripts, ∃ reports,
      r.machine.runEach p config.eof more scripts = some reports ∧
        List.Forall₂ (Report.OnlyFlushed r.machine (FlushOutcome.fault? p.size))
          scripts reports) ∧
    ∀ fault, r.fault = some fault →
      ((∃ address pointer, fault = .pointerOutOfRange address pointer) ∨
        ∃ address, fault = .unmatchedLoopEnd address) →
      ∀ more > 0, ∀ scripts, ∃ reports,
        r.machine.runEach p config.eof more scripts = some reports ∧
          List.Forall₂ (Report.OnlyFlushed r.machine fun _ => some fault) scripts reports := by
  have hp : p.Paired := Program.paired_of_parse hparse
  rcases end_or_cause_of_run hp hm h with ⟨hstopped, hend, hflush⟩ |
    ⟨made, first, hstopped, hfirst, hlt, hmade, hcause⟩
  · refine ⟨⟨fun _ => hflush, fun _ => hstopped⟩, ?_, ?_⟩
    · intro _ more hmore scripts
      rw [← hend]
      exact (atRest_of_end hend.ge).runEach hmore scripts
    · intro fault hfault hkind
      -- what the last flush can report is of neither kind
      exfalso
      rcases hflush with hnone | ⟨e, he⟩
      · rw [hnone] at hfault
        contradiction
      · obtain rfl : Fault.stream p.size e = fault := Option.some.inj (he.symm.trans hfault)
        simp at hkind
  · refine ⟨?_, ?_, ?_⟩
    · -- the cause lies at an instruction, hence in front of the length of the program
      have haddress := hcause.address?_eq
      constructor
      · intro hnone
        rw [hstopped] at hnone
        contradiction
      · rintro (hnone | ⟨e, he⟩)
        · rw [hfirst] at hnone
          contradiction
        · rw [hfirst] at he
          obtain rfl := Option.some.inj he
          exact absurd (Option.some.inj haddress) hlt.ne'
    · intro hnone
      rw [hstopped] at hnone
      contradiction
    · intro fault hfault hkind more hmore scripts
      obtain rfl : first = fault := Option.some.inj (hfirst.symm.trans hfault)
      have hcall : ∀ address e, first ≠ .stream address e := by
        rintro address e rfl
        simp at hkind
      exact (atRest_of_cause hmade hcause hcall).runEach hmore scripts

/-- A program whose last flush fails is complete, so the second run has only that flush to make
again, and the third one too.  A machine to the left of its tape stays there although the flush of
the second run fails. -/
theorem ended_machines_are_absorbing_at_end_and_edge :
    let e : StreamError := .ofKind .timedOut
    let config : Config := { tapeLength := ⟨1, by decide, by decide⟩ }
    (∃ (p : Program) (m : Machine) (r : Report) (reports : List Report),
      Program.parse "+." = .ok p ∧ Reachable p config m ∧
      m.run p .zero 3 { flushes := [.failure e] } = some r ∧ r.fault = some (.stream 2 e) ∧
      r.machine.runEach p .zero 1 [{ flushes := [.failure e] }, {}] = some reports ∧
      List.Forall₂ (Report.OnlyFlushed r.machine (FlushOutcome.fault? 2))
        [{ flushes := [.failure e] }, {}] reports) ∧
    ∃ (p : Program) (m : Machine) (r : Report) (reports : List Report),
      Program.parse "+<" = .ok p ∧ Reachable p config m ∧
      m.run p .zero 2 {} = some r ∧ r.fault = some (.pointerOutOfRange 1 (-1)) ∧
      r.machine.runEach p .zero 1 [{ flushes := [.failure e] }, {}] = some reports ∧
      List.Forall₂ (Report.OnlyFlushed r.machine fun _ => some (.pointerOutOfRange 1 (-1)))
        [{ flushes := [.failure e] }, {}] reports := by
  intro e config
  let m : Machine := { tape := ⟨#[0], 0, .bounded, by decide⟩ }
  constructor
  · let p : Program := { code := #[.increment, .output], jumps := #[none, none], size_jumps := rfl }
    have hparse : Program.parse "+." = .ok p := by rfl
    have hm : Reachable p config m := Reachable.new (by rfl)
    let r : Report := (m.run p .zero 3 { flushes := [.failure e] }).get (by decide)
    have hr : m.run p .zero 3 { flushes := [.failure e] } = some r := (Option.some_get _).symm
    have hfault : r.fault = some (.stream 2 e) := by decide
    obtain ⟨hended, hrest, -⟩ := ended_machines_are_absorbing hparse hm hr
    obtain ⟨reports, hreports, hall⟩ := hrest (hended.2 (.inr ⟨e, hfault⟩)) 1 Nat.one_pos
      [{ flushes := [.failure e] }, {}]
    exact ⟨p, m, r, reports, hparse, hm, hr, hfault, hreports, hall⟩
  · let p : Program := { code := #[.increment, .moveLeft], jumps := #[none, none], size_jumps := rfl }
    have hparse : Program.parse "+<" = .ok p := by rfl
    have hm : Reachable p config m := Reachable.new (by rfl)
    let r : Report := (m.run p .zero 2 {}).get (by decide)
    have hr : m.run p .zero 2 {} = some r := (Option.some_get _).symm
    have hfault : r.fault = some (.pointerOutOfRange 1 (-1)) := by decide
    obtain ⟨-, -, hrest⟩ := ended_machines_are_absorbing hparse hm hr
    obtain ⟨reports, hreports, hall⟩ := hrest _ hfault (.inl ⟨1, -1, rfl⟩) 1 Nat.one_pos
      [{ flushes := [.failure e] }, {}]
    exact ⟨p, m, r, reports, hparse, hm, hr, hfault, hreports, hall⟩

end Machine

end TapeMachine
