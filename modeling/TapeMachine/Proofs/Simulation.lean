import TapeMachine.Proofs.LoopTable
import TapeMachine.Proofs.Parting

/-!
# One execution for another

An execution can stand for another one that has a different tape, different streams and other
actions in the same places, if the two cannot be told apart in what matters: they see the same value
in the current cell, each action has the same outcome on both sides, and the calls of the second one
are those calls of the first that are shown.  `Simulation` is this condition on single actions.
Loops need no condition, since they are steered by the current cell alone; so the machines go the
same way through their programs, whole runs have the same result, and one of them stops if the other
does.
-/

namespace TapeMachine

/-- The instruction with another action in place of its own; brackets stay. -/
def Instruction.mapAction (change : Action → Action) : Instruction → Instruction
  | moveRight => (change .moveRight).toInstruction
  | moveLeft => (change .moveLeft).toInstruction
  | increment => (change .increment).toInstruction
  | decrement => (change .decrement).toInstruction
  | output => (change .output).toInstruction
  | input => (change .input).toInstruction
  | loopStart => loopStart
  | loopEnd => loopEnd

@[simp] theorem Instruction.mapAction_toInstruction (change : Action → Action) (action : Action) :
    action.toInstruction.mapAction change = (change action).toInstruction := by
  cases action <;> rfl

@[simp] theorem Instruction.mapAction_id : Instruction.mapAction id = id := by
  funext i
  cases i <;> rfl

namespace LoopScan

theorem push_toInstruction (s : LoopScan) (action : Action) :
    s.push action.toInstruction = ⟨s.waiting, s.jumps.push none⟩ := by
  obtain ⟨waiting, jumps⟩ := s
  cases action <;> rfl

theorem push_mapAction (change : Action → Action) (s : LoopScan) (i : Instruction) :
    s.push (i.mapAction change) = s.push i := by
  rcases i.action_or_loop with ⟨action, rfl⟩ | rfl | rfl
  · rw [Instruction.mapAction_toInstruction, push_toInstruction, push_toInstruction]
  · rfl
  · rfl

theorem ofCode_mapAction (change : Action → Action) (code : List Instruction) :
    ofCode (code.map (Instruction.mapAction change)) = ofCode code := by
  rw [ofCode, List.foldl_map]
  simp only [push_mapAction]
  rfl

end LoopScan

/-- The program with other actions in place of its own.  The loops are the same. -/
def Program.mapAction (change : Action → Action) (p : Program) : Program where
  code := p.code.map (Instruction.mapAction change)
  jumps := p.jumps
  size_jumps := by rw [Array.size_map, p.size_jumps]

namespace Program

variable {change : Action → Action} {p : Program} {address : Nat} {i : Instruction}

@[simp] theorem mapAction_id (p : Program) : p.mapAction id = p := by
  obtain ⟨code, jumps, hsize⟩ := p
  simp only [mapAction, Instruction.mapAction_id, Array.map_id]

theorem getElem?_code_mapAction (h : p.code[address]? = some i) :
    (p.mapAction change).code[address]? = some (i.mapAction change) := by
  rw [mapAction, Array.getElem?_map, h, Option.map_some]

theorem ofCode_mapAction {code : List Instruction} (h : ofCode code = .ok p) :
    ofCode (code.map (Instruction.mapAction change)) = .ok (p.mapAction change) := by
  obtain ⟨hcode, hjumps, hwaiting⟩ := ofCode_eq_ok_iff.1 h
  apply ofCode_eq_ok_iff.2
  rw [LoopScan.ofCode_mapAction]
  refine ⟨?_, hjumps, hwaiting⟩
  rw [mapAction, Array.toList_map, hcode]

@[simp] theorem size_mapAction : (p.mapAction change).size = p.size :=
  Array.size_map

end Program

section Matching

variable (shown : Event → Option Event) (Related : Tape → Streams → Tape → Streams → Prop)

/-- Two actions have the same outcome on their tapes: both are completed, or both run into the same
obstacle. -/
inductive Effect.Matches (tape tape' : Tape) : Effect → Effect → Prop where
  | completed {next next' : Tape} {s s' : Streams} {made : List Event}
      (h : Related next s next' s') :
      Matches tape tape' ⟨.ok next, s, made⟩ ⟨.ok next', s', made.filterMap shown⟩
  | stopped {obstacle : Obstacle} {s s' : Streams} {made : List Event}
      (h : Related tape s tape' s') :
      Matches tape tape' ⟨.error obstacle, s, made⟩ ⟨.error obstacle, s', made.filterMap shown⟩

/-- Two attempts have the same outcome, but for the tapes, the streams and the calls not shown. -/
structure Attempt.Matches (a a' : Attempt) : Prop where
  machine_eq : a'.machine = { a.machine with tape := a'.machine.tape }
  related : Related a.machine.tape a.streams a'.machine.tape a'.streams
  events_eq : a'.events = a.events.filterMap shown
  fault_eq : a'.fault = a.fault

/-- Two runs have the same outcome, but for the tapes, the streams and the calls not shown. -/
structure Report.Matches (r r' : Report) : Prop where
  machine_eq : r'.machine = { r.machine with tape := r'.machine.tape }
  related : Related r.machine.tape r.streams r'.machine.tape r'.streams
  events_eq : r'.events = r.events.filterMap shown
  stopped_eq : r'.stopped = r.stopped
  fault_eq : r'.fault = r.fault

end Matching

/-- Related tapes and streams cannot be told apart by an action, by the final flush or by a look at
the current cell. -/
structure Simulation (eof eof' : EofPolicy) (change : Action → Action)
    (shown : Event → Option Event) (Related : Tape → Streams → Tape → Streams → Prop) : Prop where
  get : ∀ {tape tape' : Tape} {s s' : Streams}, Related tape s tape' s' → tape'.get = tape.get
  flush : ∀ {tape tape' : Tape} {s s' : Streams}, Related tape s tape' s' →
    s'.flush.result = s.flush.result ∧ s'.flush.events = s.flush.events.filterMap shown ∧
      Related tape s.flush.streams tape' s'.flush.streams
  perform : ∀ {tape tape' : Tape} {s s' : Streams}, Related tape s tape' s' →
    ∀ action : Action, Effect.Matches shown Related tape tape' (action.perform eof tape s)
      ((change action).perform eof' tape' s')

namespace Simulation

open Machine

variable {p : Program} {eof eof' : EofPolicy} {change : Action → Action}
  {shown : Event → Option Event} {Related : Tape → Streams → Tape → Streams → Prop} {m : Machine}
  {tape' : Tape} {s s' : Streams}

theorem step (h : Simulation eof eof' change shown Related) (hs : Related m.tape s tape' s') :
    Option.Rel (Attempt.Matches shown Related) (m.step? p eof s)
      (({ m with tape := tape' } : Machine).step? (p.mapAction change) eof' s') := by
  let m' : Machine := { m with tape := tape' }
  have hcell : m'.tape.get = m.tape.get := h.get hs
  have hcode {i : Instruction} (hi : p.code[m.address]? = some i) :
      (p.mapAction change).code[m'.address]? = some (i.mapAction change) :=
    Program.getElem?_code_mapAction hi
  cases hstep : m.step? p eof s with
  | none =>
      have hend : p.size ≤ m.address := step?_eq_none_iff.1 hstep
      have hend' : (p.mapAction change).size ≤ m'.address := by rwa [Program.size_mapAction]
      rw [step?_eq_none_iff.2 hend']
      exact .none
  | some a =>
      have hmatch (a' : Attempt) (ha' : Step (p.mapAction change) eof' m' s' a')
          (hmatches : Attempt.Matches shown Related a a') :
          Option.Rel (Attempt.Matches shown Related) (some a)
            (m'.step? (p.mapAction change) eof' s') := by
        rw [ha'.step?_eq]
        exact .some hmatches
      cases step_of_step? hstep with
      | @action action hi =>
          have haction := hcode hi
          rw [Instruction.mapAction_toInstruction] at haction
          refine hmatch _ (.action haction) ?_
          have heffect := h.perform hs action
          generalize action.perform eof m.tape s = effect at heffect ⊢
          generalize (change action).perform eof' m'.tape s' = effect' at heffect ⊢
          cases heffect with
          | completed hrelated => exact ⟨rfl, hrelated, rfl, rfl⟩
          | stopped hrelated => exact ⟨rfl, hrelated, rfl, rfl⟩
      | enter hi hne => exact hmatch _ (.enter (hcode hi) (hcell ▸ hne)) ⟨rfl, hs, rfl, rfl⟩
      | skip hi hzero htarget =>
          exact hmatch _ (.skip (hcode hi) (hcell ▸ hzero) htarget) ⟨rfl, hs, rfl, rfl⟩
      | unpaired hi hzero htarget =>
          exact hmatch _ (.unpaired (hcode hi) (hcell ▸ hzero) htarget) ⟨rfl, hs, rfl, rfl⟩
      | leave hi hloops hzero =>
          exact hmatch _ (.leave (hcode hi) hloops (hcell ▸ hzero)) ⟨rfl, hs, rfl, rfl⟩
      | again hi hloops hne =>
          exact hmatch _ (.again (hcode hi) hloops (hcell ▸ hne)) ⟨rfl, hs, rfl, rfl⟩
      | stray hi hloops => exact hmatch _ (.stray (hcode hi) hloops) ⟨rfl, hs, rfl, rfl⟩

theorem executeAll (h : Simulation eof eof' change shown Related) (hs : Related m.tape s tape' s')
    {before before' : Array Event} (hbefore : before'.toList = before.toList.filterMap shown)
    (fuel : Nat) :
    Option.Rel (Attempt.Matches shown Related) (Machine.executeAll p eof fuel m s before)
      (Machine.executeAll (p.mapAction change) eof' fuel { m with tape := tape' } s' before') := by
  induction fuel generalizing m tape' s s' before before' with
  | zero => exact .none
  | succ fuel ih =>
      have hstep := h.step (p := p) hs
      simp only [Machine.executeAll]
      generalize m.step? p eof s = next at hstep ⊢
      generalize Machine.step? (p.mapAction change) eof' _ s' = next' at hstep ⊢
      cases hstep with
      | none => exact .some ⟨rfl, hs, hbefore, rfl⟩
      | @some a a' ha =>
          obtain ⟨m₁, s₁, made, fault⟩ := a
          obtain ⟨m₁', s₁', made', fault'⟩ := a'
          obtain ⟨hmachine, hrelated, hmade, hfault⟩ := ha
          obtain rfl : fault' = fault := hfault
          have hevents : (before'.appendList made').toList =
              (before.appendList made).toList.filterMap shown := by
            obtain rfl : made' = made.filterMap shown := hmade
            simp only [Array.appendList_eq_append, Array.toList_appendList, hbefore,
              List.filterMap_append]
          cases fault' with
          | none =>
              have hrest := ih (m := m₁) hrelated hevents
              rwa [← hmachine] at hrest
          | some fault => exact .some ⟨hmachine, hrelated, hevents, rfl⟩

theorem finish (h : Simulation eof eof' change shown Related) {a a' : Attempt}
    (ha : Attempt.Matches shown Related a a') :
    Report.Matches shown Related (Machine.finish a) (Machine.finish a') := by
  obtain ⟨hmachine, hrelated, hevents, hfault⟩ := ha
  obtain ⟨hresult, hflushed, hafter⟩ := h.flush hrelated
  have haddress : a'.machine.address = a.machine.address := by rw [hmachine]
  refine ⟨hmachine, hafter, ?_, hfault, ?_⟩
  · simp only [Machine.finish, hevents, hflushed, List.filterMap_append]
  · simp only [Machine.finish, hfault, hresult, haddress]

/-- Executions that stand for each other run to the same result, or both do not stop. -/
theorem run (h : Simulation eof eof' change shown Related) (hs : Related m.tape s tape' s')
    (fuel : Nat) :
    Option.Rel (Report.Matches shown Related) (m.run p eof fuel s)
      (({ m with tape := tape' } : Machine).run (p.mapAction change) eof' fuel s') := by
  have hbefore : (#[] : Array Event).toList = (#[] : Array Event).toList.filterMap shown := rfl
  have hlast := h.executeAll (p := p) hs hbefore fuel
  rw [Machine.run, Machine.run]
  generalize Machine.executeAll p eof fuel m s #[] = last at hlast ⊢
  generalize Machine.executeAll (p.mapAction change) eof' fuel _ s' #[] = last' at hlast ⊢
  cases hlast with
  | none => exact .none
  | some ha => exact .some (h.finish ha)

/-- The calls that are shown are the same at any time, also in executions that never stop. -/
theorem callsWithin (h : Simulation eof eof' change shown Related)
    (hs : Related m.tape s tape' s') (n : Nat) :
    ({ m with tape := tape' } : Machine).callsWithin (p.mapAction change) eof' n s' =
      (m.callsWithin p eof n s).filterMap shown := by
  induction n generalizing m tape' s s' with
  | zero => rfl
  | succ n ih =>
      have hstep := h.step (p := p) hs
      simp only [Machine.callsWithin]
      generalize m.step? p eof s = next at hstep ⊢
      generalize Machine.step? (p.mapAction change) eof' _ s' = next' at hstep ⊢
      cases hstep with
      | none => exact (h.flush hs).2.1
      | @some a a' ha =>
          obtain ⟨m₁, s₁, made, fault⟩ := a
          obtain ⟨m₁', s₁', made', fault'⟩ := a'
          obtain ⟨hmachine, hrelated, hmade, hfault⟩ := ha
          obtain rfl : made' = made.filterMap shown := hmade
          obtain rfl : fault' = fault := hfault
          cases fault' with
          | none =>
              have hrest := ih (m := m₁) hrelated
              rw [← hmachine] at hrest
              simp only [List.filterMap_append, hrest]
          | some fault => simp only [List.filterMap_append, (h.flush hrelated).2.1]

end Simulation

end TapeMachine
