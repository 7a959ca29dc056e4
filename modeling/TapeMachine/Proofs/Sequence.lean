import TapeMachine.Proofs.AppendedCode
import TapeMachine.Proofs.Lockstep
import TapeMachine.Proofs.LoopStack
import TapeMachine.Proofs.Parting

/-!
# One program after another

Two texts written one behind the other run one after the other.  As long as the machine is in the
first part it goes in lockstep with a machine that has nothing else to do.  If it comes to the end
of that part, no loop is open there, and from then on it does what a new machine does with the
second part on the tape and the streams that were left; only its addresses and its steps are counted
from further back.
-/

namespace TapeMachine

/-- The same fault, `offset` instructions further on. -/
def Fault.shift (offset : Nat) : Fault → Fault
  | unmatchedLoopStart address => unmatchedLoopStart (address + offset)
  | unmatchedLoopEnd address => unmatchedLoopEnd (address + offset)
  | pointerOutOfRange address pointer => pointerOutOfRange (address + offset) pointer
  | stream address error => stream (address + offset) error
  | tapeAllocation length => tapeAllocation length

/-- The same machine, `offset` instructions further on and with `before` more steps behind it. -/
def Machine.shift (offset before : Nat) (m : Machine) : Machine :=
  { m with
    loops := m.loops.map (· + offset)
    address := m.address + offset
    steps := m.steps + before }

def Attempt.shift (offset before : Nat) (a : Attempt) : Attempt :=
  { a with machine := a.machine.shift offset before, fault := a.fault.map (Fault.shift offset) }

/-- The report of a run that had made `before` steps and the calls `made` when it began to do, with
addresses larger by `offset`, what is reported by `r`. -/
def Report.following (offset before : Nat) (made : List Event) (r : Report) : Report where
  machine := r.machine.shift offset before
  streams := r.streams
  events := made ++ r.events
  stopped := r.stopped.map (Fault.shift offset)
  fault := r.fault.map (Fault.shift offset)

namespace Moment

/-- The execution from here is never at the end of the program. -/
def StaysInside (p : Program) (eof : EofPolicy) (c : Moment) : Prop :=
  ∀ n d, c.after p eof n = some d → d.machine.address < p.size

variable {p : Program} {eof : EofPolicy} {c d : Moment}

theorem StaysInside.lt_size (h : StaysInside p eof c) : c.machine.address < p.size :=
  h 0 c rfl

theorem StaysInside.next (h : StaysInside p eof c) (hd : c.next? p eof = some d) :
    StaysInside p eof d := by
  intro n e he
  exact h (n + 1) e (after_succ_eq_some_iff.2 ⟨d, hd, he⟩)

end Moment

namespace Machine

open Moment

variable {front back : Program} {config : Config} {eof : EofPolicy} {m : Machine} {s : Streams}
  {a : Attempt} {offset before : Nat}

/-! ## Inside the first part -/

theorem step?_append_left (h : m.address < front.size) :
    m.step? (front.append back) eof s = m.step? front eof s := by
  rw [step?, step?, Program.getElem?_code_append_left h]
  refine Option.map_congr fun i _ => ?_
  cases i with
  | loopStart => simp only [execute, enterLoop, Program.jumpTarget?_append_left h]
  | _ => rfl

theorem lockstep_append : Lockstep front (front.append back) eof eof Eq := by
  rintro m _ next s s' made rfl hs
  have hlt := (step_of_step? hs).lt_size
  exact ⟨next, (step?_append_left hlt).trans hs, rfl⟩

theorem after_append {c d : Moment} {n : Nat} (hd : c.after front eof n = some d) :
    c.after (front.append back) eof n = some d := by
  obtain ⟨_, hafter, rfl⟩ := lockstep_append.after rfl hd
  exact hafter

theorem executeAll_append_of_fault {fuel : Nat} {events : Array Event} {fault : Fault}
    (h : executeAll front eof fuel m s events = some a) (hf : a.fault = some fault) :
    executeAll (front.append back) eof fuel m s events = some a := by
  obtain ⟨n, hn, d, hd, ha⟩ := executeAll_eq_some_iff.1 h
  apply executeAll_eq_some_iff.2
  refine ⟨n, hn, d, after_append hd, ?_⟩
  rcases ending?_eq_some_iff.1 ha with ⟨-, rfl⟩ | ⟨made, first, hs, hevents, hfirst⟩
  · contradiction
  · apply ending?_eq_some_iff.2
    have hlt := (step_of_step? hs).lt_size
    exact .inr ⟨made, first, (step?_append_left hlt).trans hs, hevents, hfirst⟩

theorem executeAll_append_of_staysInside {events : Array Event}
    (h : StaysInside front eof ⟨m, s, events.toList⟩) (fuel : Nat) :
    executeAll (front.append back) eof fuel m s events = executeAll front eof fuel m s events := by
  induction fuel generalizing m s events with
  | zero => rfl
  | succ fuel ih =>
      simp only [executeAll, step?_append_left h.lt_size]
      rcases hs : m.step? front eof s with _ | ⟨next, s', made, _ | fault⟩
      · rfl
      · apply ih
        apply h.next
        exact next?_eq_some_iff.2 ⟨made, hs, Array.toList_appendList⟩
      · rfl

theorem callsWithin_append_of_staysInside {made : List Event}
    (h : StaysInside front eof ⟨m, s, made⟩) (n : Nat) :
    m.callsWithin (front.append back) eof n s = m.callsWithin front eof n s := by
  induction n generalizing m s made with
  | zero => rfl
  | succ n ih =>
      simp only [callsWithin, step?_append_left h.lt_size]
      rcases hs : m.step? front eof s with _ | ⟨next, s', new, _ | fault⟩
      · rfl
      · have hrest : StaysInside front eof ⟨next, s', made ++ new⟩ :=
          h.next (next?_eq_some_iff.2 ⟨new, hs, rfl⟩)
        exact congrArg (new ++ ·) (ih hrest)
      · rfl

/-- A run that is not completed stays inside its program. -/
theorem staysInside_of_not_completed {p : Program}
    (h : ∀ fuel r, m.run p eof fuel s = some r → r.stopped ≠ none) :
    StaysInside p eof ⟨m, s, []⟩ := by
  intro n d hd
  by_contra hend
  have hnone : d.machine.step? p eof d.streams = none := step?_eq_none_iff.2 (Nat.le_of_not_lt hend)
  have hending : d.ending? p eof =
      some { machine := d.machine, streams := d.streams, events := d.events } :=
    ending?_eq_some_iff.2 (.inl ⟨hnone, rfl⟩)
  exact h (n + 1) _ (run_eq_some_iff.2 ⟨n, Nat.lt_succ_self n, _, ⟨d, hd, hending⟩, rfl⟩) rfl

/-- A program that is not completed never notices what stands behind it. -/
theorem append_of_not_completed
    (h : ∀ fuel r, m.run front eof fuel s = some r → r.stopped ≠ none) (rest : Program)
    (fuel : Nat) :
    m.callsWithin (front.append rest) eof fuel s = m.callsWithin front eof fuel s ∧
      m.run (front.append rest) eof fuel s = m.run front eof fuel s := by
  have hinside := staysInside_of_not_completed h
  constructor
  · exact callsWithin_append_of_staysInside hinside fuel
  · exact congrArg (Option.map finish) (executeAll_append_of_staysInside hinside fuel)

/-! ## Inside the second part -/

theorem shift_proceedAt (m : Machine) (address : Nat) :
    (m.proceedAt address).shift offset before =
      (m.shift offset before).proceedAt (address + offset) := by
  simp only [shift, proceedAt, Nat.add_right_comm m.steps 1 before]

theorem shift_proceed (m : Machine) :
    m.proceed.shift offset before = (m.shift offset before).proceed := by
  rw [proceed, shift_proceedAt, proceed, Nat.add_right_comm]
  rfl

theorem shift_carryOut (m : Machine) (effect : Effect) :
    (m.carryOut effect).shift offset before = (m.shift offset before).carryOut effect := by
  obtain ⟨obstacle | tape, s, events⟩ := effect
  · cases obstacle <;> rfl
  · simp only [carryOut, advance, Attempt.shift, shift, Nat.add_right_comm _ 1, Option.map_none]

theorem Step.shift (h : Step back eof m s a) (before : Nat) :
    Step (front.append back) eof (m.shift front.size before) s (a.shift front.size before) := by
  have hcode : (front.append back).code[(m.shift front.size before).address]? =
      back.code[m.address]? := Program.getElem?_code_append_right m.address
  have hjump : (front.append back).jumpTarget? (m.shift front.size before).address =
      (back.jumpTarget? m.address).map (· + front.size) :=
    Program.jumpTarget?_append_right m.address
  cases h with
  | action h =>
      rw [shift_carryOut]
      exact .action (hcode.trans h)
  | enter h hcell =>
      rw [Attempt.shift, shift_proceed]
      exact .enter (hcode.trans h) hcell
  | skip h hcell htarget =>
      rw [htarget, Option.map_some] at hjump
      rw [Attempt.shift, shift_proceedAt, Nat.add_right_comm]
      exact .skip (hcode.trans h) hcell hjump
  | unpaired h hcell htarget =>
      rw [htarget, Option.map_none] at hjump
      exact .unpaired (hcode.trans h) hcell hjump
  | leave h hloops hcell =>
      have hloops' : (m.shift front.size before).loops = _ :: _ :=
        (congrArg (List.map (· + front.size)) hloops).trans List.map_cons
      rw [Attempt.shift, shift_proceed]
      exact .leave (hcode.trans h) hloops' hcell
  | again h hloops hcell =>
      have hloops' : (m.shift front.size before).loops = _ :: _ :=
        (congrArg (List.map (· + front.size)) hloops).trans List.map_cons
      rw [Attempt.shift, shift_proceedAt, Nat.add_right_comm]
      exact .again (hcode.trans h) hloops' hcell
  | stray h hloops =>
      have hloops' : (m.shift front.size before).loops = [] :=
        congrArg (List.map (· + front.size)) hloops
      exact .stray (hcode.trans h) hloops'

theorem step?_append_right (before : Nat) (m : Machine) (s : Streams) :
    (m.shift front.size before).step? (front.append back) eof s =
      (m.step? back eof s).map (Attempt.shift front.size before) := by
  cases hs : m.step? back eof s with
  | none =>
      have hend : back.size ≤ m.address := step?_eq_none_iff.1 hs
      apply step?_eq_none_iff.2
      rw [Program.size_append, Nat.add_comm]
      exact Nat.add_le_add_right hend front.size
  | some a => exact ((step_of_step? hs).shift before).step?_eq

theorem executeAll_append_right (before fuel : Nat) (m : Machine) (s : Streams)
    (events : Array Event) :
    executeAll (front.append back) eof fuel (m.shift front.size before) s events =
      (executeAll back eof fuel m s events).map (Attempt.shift front.size before) := by
  induction fuel generalizing m s events with
  | zero => rfl
  | succ fuel ih =>
      simp only [executeAll, step?_append_right]
      rcases m.step? back eof s with _ | ⟨next, s', made, _ | fault⟩
      · rfl
      · exact ih _ _ _
      · rfl

theorem callsWithin_append_right (front back : Program) (before n : Nat) (m : Machine)
    (s : Streams) :
    (m.shift front.size before).callsWithin (front.append back) eof n s =
      m.callsWithin back eof n s := by
  induction n generalizing m s with
  | zero => rfl
  | succ n ih =>
      simp only [callsWithin, step?_append_right]
      rcases m.step? back eof s with _ | ⟨next, s', made, _ | fault⟩
      · rfl
      · exact congrArg (made ++ ·) (ih next s')
      · rfl

/-! ## From the one to the other -/

theorem executeAll_of_after {p : Program} {n : Nat} {events : Array Event} {d : Moment}
    (hd : Moment.after p eof n ⟨m, s, events.toList⟩ = some d) (fuel : Nat) :
    executeAll p eof (n + fuel) m s events =
      executeAll p eof fuel d.machine d.streams d.events.toArray := by
  induction n generalizing m s events with
  | zero =>
      obtain rfl := Option.some.inj hd
      rw [Nat.zero_add]
  | succ n ih =>
      obtain ⟨e, he, hd⟩ := after_succ_eq_some_iff.1 hd
      obtain ⟨made, hs, hevents⟩ := next?_eq_some_iff.1 he
      have hlist : (events.appendList made).toList = e.events := by
        rw [hevents]
        exact Array.toList_appendList
      rw [Nat.succ_add, executeAll, hs]
      apply ih
      rw [hlist]
      exact hd

/-- An execution that ends without a fault has come to the end of the program. -/
theorem after_of_completed {p : Program} {fuel : Nat} {done : Attempt}
    (h : m.executeAll p eof fuel s #[] = some done) (hf : done.fault = none) :
    ∃ n, Moment.after p eof n ⟨m, s, []⟩ = some ⟨done.machine, done.streams, done.events⟩ ∧
      p.size ≤ done.machine.address := by
  obtain ⟨n, -, d, hd, ha⟩ := executeAll_eq_some_iff.1 h
  rcases ending?_eq_some_iff.1 ha with ⟨hnone, rfl⟩ | ⟨_, _, -, -, hfault⟩
  · exact ⟨n, hd, step?_eq_none_iff.1 hnone⟩
  · rw [hf] at hfault
    contradiction

/-- A new machine that has executed its whole program stands right behind it, in no loop. -/
theorem eq_shift_of_completed (hp : front.Paired) (hnew : new config = .ok m) {d : Moment}
    {n : Nat} (hd : Moment.after front config.eof n ⟨m, s, []⟩ = some d)
    (hend : front.size ≤ d.machine.address) :
    d.machine.steps = n ∧
      d.machine = ({ tape := d.machine.tape } : Machine).shift front.size d.machine.steps := by
  have hreach : Reachable front config d.machine :=
    Reachable.after (c := ⟨m, s, []⟩) (.new hnew) hd
  have haligned : Aligned front d.machine := hreach.aligned hp
  have haddress : d.machine.address = front.size := le_antisymm haligned.address_le hend
  have hloops : d.machine.loops = [] := by
    rw [haligned.loops_eq, haddress, hp.openAt_size]
  constructor
  · have hcount := steps_of_after hd
    obtain ⟨tape, -, rfl⟩ := new_eq_ok_iff.1 hnew
    rw [hcount]
    exact Nat.zero_add n
  · rcases hmachine : d.machine with ⟨tape, loops, address, steps⟩
    rw [hmachine] at haddress hloops
    obtain rfl : address = front.size := haddress
    obtain rfl : loops = [] := hloops
    rw [shift, Nat.zero_add, Nat.zero_add, List.map_nil]

theorem finish_shift (offset before : Nat) (made : List Event) (a : Attempt) :
    finish (({ a with events := made ++ a.events } : Attempt).shift offset before) =
      (finish a).following offset before made := by
  obtain ⟨m, s, events, fault⟩ := a
  simp only [finish, Report.following, Attempt.shift, List.append_assoc]
  -- a failure to flush counts, with its moved address, only when nothing failed before
  cases fault <;> cases s.flush.result <;> rfl

theorem run_append_of_completed (hp : front.Paired) (hnew : new config = .ok m) {fuel : Nat}
    {done : Attempt} (h : m.executeAll front config.eof fuel s #[] = some done)
    (hf : done.fault = none) (more : Nat) :
    m.run (front.append back) config.eof (done.machine.steps + more) s =
      (({ tape := done.machine.tape } : Machine).run back config.eof more done.streams).map
        (Report.following front.size done.machine.steps done.events) := by
  obtain ⟨n, hd, hend⟩ := after_of_completed h hf
  obtain ⟨hsteps, hmachine⟩ := eq_shift_of_completed hp hnew hd hend
  have hseam : m.executeAll (front.append back) config.eof (done.machine.steps + more) s #[] =
      executeAll (front.append back) config.eof more
        (({ tape := done.machine.tape } : Machine).shift front.size done.machine.steps)
        done.streams done.events.toArray := by
    rw [← hmachine, hsteps]
    exact executeAll_of_after (after_append hd) more
  rw [run, hseam, executeAll_append_right, executeAll_eq_map, run, Option.map_map, Option.map_map,
    Option.map_map]
  exact Option.map_congr fun a _ => finish_shift front.size done.machine.steps done.events a

theorem callsWithin_append_of_completed (hp : front.Paired) (hnew : new config = .ok m) {fuel : Nat}
    {done : Attempt} (h : m.executeAll front config.eof fuel s #[] = some done)
    (hf : done.fault = none) (n : Nat) :
    m.callsWithin (front.append back) config.eof (done.machine.steps + n) s =
      done.events ++
        ({ tape := done.machine.tape } : Machine).callsWithin back config.eof n done.streams := by
  obtain ⟨k, hd, hend⟩ := after_of_completed h hf
  obtain ⟨hsteps, hmachine⟩ := eq_shift_of_completed hp hnew hd hend
  calc m.callsWithin (front.append back) config.eof (done.machine.steps + n) s
      = done.events ++ done.machine.callsWithin (front.append back) config.eof n done.streams := by
        rw [← callsWithin_of_after (after_append hd) n, ← hsteps, List.nil_append]
    _ = done.events ++ (({ tape := done.machine.tape } : Machine).shift front.size
          done.machine.steps).callsWithin (front.append back) config.eof n done.streams := by
        rw [← hmachine]
    _ = _ := congrArg (done.events ++ ·) (callsWithin_append_right front back _ n _ _)

theorem append_of_never_stops (h : ∀ fuel, m.run front eof fuel s = none) (fuel : Nat) :
    m.callsWithin (front.append back) eof fuel s = m.callsWithin front eof fuel s ∧
      m.run (front.append back) eof fuel s = none := by
  have hnot (k : Nat) (first : Report) (hfirst : m.run front eof k s = some first) :
      first.stopped ≠ none := by
    rw [h] at hfirst
    contradiction
  obtain ⟨hcalls, hrun⟩ := append_of_not_completed hnot back fuel
  exact ⟨hcalls, hrun.trans (h fuel)⟩

/-- Two accepted texts, one written behind the other, are accepted as one, and its program is the
first program followed by the second with all its addresses and jumps moved behind the first.  If a
new machine fails inside the first part, the whole does exactly the same.  If it never gets to the
end of the first part, the whole makes the same calls and never stops.  If it completes the first
part, the whole goes on from there like a new machine that is given the tape and the streams that
are left and runs the second part: it makes the same calls at any time, also if it never stops, and
it stops if that machine does, with the same tape and result, but for the steps made before and the
addresses, which are further on. -/
theorem run_appended_sources {a b : String} (ha : Program.parse a = .ok front)
    (hb : Program.parse b = .ok back) :
    ∃ both, Program.parse (a ++ b) = .ok both ∧
      both.code = front.code ++ back.code ∧
      both.jumps = front.jumps ++ back.jumps.map (Option.map (· + front.size)) ∧
      ∀ (config : Config) (m : Machine) (s : Streams), new config = .ok m →
        (∀ fuel r fault, m.run front config.eof fuel s = some r → r.stopped = some fault →
          m.run both config.eof fuel s = some r) ∧
        ((∀ fuel, m.run front config.eof fuel s = none) →
          ∀ fuel, m.callsWithin both config.eof fuel s = m.callsWithin front config.eof fuel s ∧
            m.run both config.eof fuel s = none) ∧
        (∀ fuel done, m.executeAll front config.eof fuel s #[] = some done → done.fault = none →
          ∀ more,
            m.callsWithin both config.eof (done.machine.steps + more) s = done.events ++
              ({ tape := done.machine.tape } : Machine).callsWithin back config.eof more
                done.streams ∧
            m.run both config.eof (done.machine.steps + more) s =
              (({ tape := done.machine.tape } : Machine).run back config.eof more
                done.streams).map
                (Report.following front.size done.machine.steps done.events)) := by
  have hp : front.Paired := Program.paired_of_parse ha
  refine ⟨front.append back, Program.parse_append ha hb, rfl, rfl, ?_⟩
  intro config m s hnew
  refine ⟨?_, ?_, ?_⟩
  · intro fuel r fault hr hstopped
    obtain ⟨a, ha, rfl⟩ := Option.map_eq_some_iff.1 hr
    exact Option.map_eq_some_iff.2 ⟨a, executeAll_append_of_fault ha hstopped, rfl⟩
  · exact append_of_never_stops
  · intro fuel done hdone hf more
    constructor
    · exact callsWithin_append_of_completed hp hnew hdone hf more
    · exact run_append_of_completed hp hnew hdone hf more

/-- The first part ends on its second cell, and from there the second part runs off the tape; the
first part meets a loop end that closes nothing; the first part repeats an empty loop for ever. -/
theorem run_appended_sources_three_ways :
    (∃ (both : Program) (m : Machine) (r : Report),
      Program.parse ("+[>]" ++ "+[>].<<<") = .ok both ∧
      new { tapeLength := ⟨3, by decide, by decide⟩ } = .ok m ∧ m.run both .zero 12 {} = some r ∧
      m.callsWithin both .zero 9 {} = [.write 0 .accepted] ∧ r.output = [0] ∧
      r.machine.steps = 11 ∧ r.fault = some (.pointerOutOfRange 11 (-1))) ∧
    (∃ (both : Program) (m : Machine) (r : Report), Program.parse ("+]" ++ "+") = .ok both ∧
      new { tapeLength := ⟨3, by decide, by decide⟩ } = .ok m ∧ m.run both .zero 2 {} = some r ∧
      r.fault = some (.unmatchedLoopEnd 1)) ∧
    ∃ (both : Program) (m : Machine), Program.parse ("+[]" ++ ".") = .ok both ∧
      new { tapeLength := ⟨3, by decide, by decide⟩ } = .ok m ∧
      ∀ fuel, m.run both .zero fuel {} = none := by
  let config : Config := { tapeLength := ⟨3, by decide, by decide⟩ }
  let m : Machine := { tape := ⟨#[0, 0, 0], 0, .bounded, by decide⟩ }
  have hnew : new config = .ok m := by rfl
  refine ⟨?_, ?_, ?_⟩
  · let front : Program :=
      { code := #[.increment, .loopStart, .moveRight, .loopEnd]
        jumps := #[none, some 3, none, none]
        size_jumps := rfl }
    let back : Program :=
      { code := #[.increment, .loopStart, .moveRight, .loopEnd, .output, .moveLeft, .moveLeft,
          .moveLeft]
        jumps := #[none, some 3, none, none, none, none, none, none]
        size_jumps := rfl }
    have hfront : Program.parse "+[>]" = .ok front := by rfl
    have hback : Program.parse "+[>].<<<" = .ok back := by rfl
    let left : Tape := ⟨#[1, 0, 0], 1, .bounded, by decide⟩
    let last : Tape := ⟨#[1, 1, 0], 0, .bounded, by decide⟩
    have hafter : Moment.after front .zero 4 ⟨m, {}, []⟩ = some ⟨⟨left, [], 4, 4⟩, {}, []⟩ := by
      rfl
    have hdone : m.executeAll front .zero 5 {} #[] =
        some { machine := ⟨left, [], 4, 4⟩, streams := {} } :=
      executeAll_eq_some_iff.2 ⟨4, by decide, _, hafter, by rfl⟩
    have hafter' : Moment.after back .zero 7 ⟨{ tape := left }, {}, []⟩ =
        some ⟨⟨last, [], 7, 7⟩, {}, [.write 0 .accepted]⟩ := by
      rfl
    have hr : ({ tape := left } : Machine).run back .zero 8 {} =
        some (finish ⟨⟨last, [], 7, 7⟩, {}, [.write 0 .accepted],
          some (.pointerOutOfRange 7 (-1))⟩) :=
      run_eq_some_iff.2 ⟨7, by decide, _, ⟨_, hafter', by rfl⟩, rfl⟩
    obtain ⟨both, hboth, -, -, hruns⟩ := run_appended_sources hfront hback
    have hcompleted := (hruns config m {} hnew).2.2 5 _ hdone rfl
    have hrun := (hcompleted 8).2
    rw [hr] at hrun
    exact ⟨both, m, _, hboth, hnew, hrun, (hcompleted 5).1, rfl, rfl, rfl⟩
  · let front : Program :=
      { code := #[.increment, .loopEnd], jumps := #[none, none], size_jumps := rfl }
    let back : Program := { code := #[.increment], jumps := #[none], size_jumps := rfl }
    have hfront : Program.parse "+]" = .ok front := by rfl
    have hback : Program.parse "+" = .ok back := by rfl
    let r : Report := (m.run front .zero 2 {}).get (by decide)
    have hr : m.run front .zero 2 {} = some r := (Option.some_get _).symm
    obtain ⟨both, hboth, -, -, hruns⟩ := run_appended_sources hfront hback
    have hrun := (hruns config m {} hnew).1 2 r (.unmatchedLoopEnd 1) hr (by decide)
    exact ⟨both, m, r, hboth, hnew, hrun, by decide⟩
  · let front : Program :=
      { code := #[.increment, .loopStart, .loopEnd], jumps := #[none, some 2, none]
        size_jumps := rfl }
    let back : Program := { code := #[.output], jumps := #[none], size_jumps := rfl }
    have hfront : Program.parse "+[]" = .ok front := by rfl
    have hback : Program.parse "." = .ok back := by rfl
    have hround : ∀ fuel steps, executeAll front .zero fuel
        ⟨⟨#[1, 0, 0], 0, .bounded, by decide⟩, [1], 2, steps⟩ {} #[] = none := by
      intro fuel
      induction fuel with
      | zero => exact fun _ => rfl
      | succ fuel ih => exact fun steps => ih (steps + 1)
    have hnever : ∀ fuel, m.run front .zero fuel {} = none
      | 0 => rfl
      | 1 => rfl
      | fuel + 2 => congrArg (Option.map finish) (hround fuel 2)
    obtain ⟨both, hboth, -, -, hruns⟩ := run_appended_sources hfront hback
    have hsame := (hruns config m {} hnew).2.1 hnever
    exact ⟨both, m, hboth, hnew, fun fuel => (hsame fuel).2⟩

end Machine

end TapeMachine
