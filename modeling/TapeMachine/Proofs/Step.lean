import TapeMachine.Proofs.Action

/-!
# Steps

`Machine.Step` lists what an attempt of the machine can be, one case for each way through an
instruction, with the conditions under which it is taken.  It is the same as `Machine.step?`; the
facts about single instructions are read off its cases.
-/

namespace TapeMachine

namespace Machine

/-- The attempts of a machine, by what is done. -/
inductive Step (p : Program) (eof : EofPolicy) (m : Machine) (s : Streams) : Attempt → Prop where
  | action {action : Action} (h : p.code[m.address]? = some action.toInstruction) :
      Step p eof m s (m.carryOut (action.perform eof m.tape s))
  | enter (h : p.code[m.address]? = some .loopStart) (hcell : m.tape.get ≠ 0) :
      Step p eof m s
        { machine := { m with loops := m.address :: m.loops }.proceed, streams := s }
  | skip {target : Nat} (h : p.code[m.address]? = some .loopStart) (hcell : m.tape.get = 0)
      (htarget : p.jumpTarget? m.address = some target) :
      Step p eof m s { machine := m.proceedAt (target + 1), streams := s }
  | unpaired (h : p.code[m.address]? = some .loopStart) (hcell : m.tape.get = 0)
      (htarget : p.jumpTarget? m.address = none) :
      Step p eof m s
        { machine := m, streams := s, fault := some (.unmatchedLoopStart m.address) }
  | leave {start : Nat} {outer : List Nat} (h : p.code[m.address]? = some .loopEnd)
      (hloops : m.loops = start :: outer) (hcell : m.tape.get = 0) :
      Step p eof m s { machine := { m with loops := outer }.proceed, streams := s }
  | again {start : Nat} {outer : List Nat} (h : p.code[m.address]? = some .loopEnd)
      (hloops : m.loops = start :: outer) (hcell : m.tape.get ≠ 0) :
      Step p eof m s { machine := m.proceedAt (start + 1), streams := s }
  | stray (h : p.code[m.address]? = some .loopEnd) (hloops : m.loops = []) :
      Step p eof m s { machine := m, streams := s, fault := some (.unmatchedLoopEnd m.address) }

variable {p : Program} {eof : EofPolicy} {m : Machine} {s : Streams} {a : Attempt}

theorem step?_eq_none_iff : m.step? p eof s = none ↔ p.size ≤ m.address := by
  rw [step?, Option.map_eq_none_iff, Array.getElem?_eq_none_iff, Program.size]

theorem step_of_step? (h : m.step? p eof s = some a) : Step p eof m s a := by
  obtain ⟨i, hi, rfl⟩ := Option.map_eq_some_iff.1 h
  rcases i.action_or_loop with ⟨action, rfl⟩ | rfl | rfl
  · rw [execute_toInstruction]
    exact .action hi
  · by_cases hcell : m.tape.get = 0
    · cases htarget : p.jumpTarget? m.address with
      | some target =>
          have hskip : Step p eof m s _ := .skip hi hcell htarget
          simpa only [execute, enterLoop, if_pos hcell, htarget] using hskip
      | none =>
          have hunpaired : Step p eof m s _ := .unpaired hi hcell htarget
          simpa only [execute, enterLoop, if_pos hcell, htarget] using hunpaired
    · have henter : Step p eof m s _ := .enter hi hcell
      simpa only [execute, enterLoop, if_neg hcell] using henter
  · cases hloops : m.loops with
    | nil =>
        have hstray : Step p eof m s _ := .stray hi hloops
        simpa only [execute, closeLoop, hloops] using hstray
    | cons start outer =>
        by_cases hcell : m.tape.get = 0
        · have hleave : Step p eof m s _ := .leave hi hloops hcell
          simpa only [execute, closeLoop, hloops, if_pos hcell] using hleave
        · have hagain : Step p eof m s _ := .again hi hloops hcell
          simpa only [execute, closeLoop, hloops, if_neg hcell] using hagain

theorem Step.step?_eq (h : Step p eof m s a) : m.step? p eof s = some a := by
  cases h with
  | action h => rw [step?, h, Option.map_some, execute_toInstruction]
  | enter h hcell => rw [step?, h, Option.map_some, execute, enterLoop, if_neg hcell]
  | skip h hcell htarget =>
      rw [step?, h, Option.map_some, execute, enterLoop, if_pos hcell, htarget]
  | unpaired h hcell htarget =>
      rw [step?, h, Option.map_some, execute, enterLoop, if_pos hcell, htarget]
  | leave h hloops hcell =>
      simp only [step?, h, Option.map_some, execute, closeLoop, hloops, if_pos hcell]
  | again h hloops hcell =>
      simp only [step?, h, Option.map_some, execute, closeLoop, hloops, if_neg hcell]
  | stray h hloops => simp only [step?, h, Option.map_some, execute, closeLoop, hloops]

theorem Step.lt_size (h : Step p eof m s a) : m.address < p.size := by
  refine Nat.lt_of_not_le fun hle => ?_
  have hnone : m.step? p eof s = none := step?_eq_none_iff.2 hle
  rw [h.step?_eq] at hnone
  contradiction

/-- Apart from the actions no instruction makes a stream call, and the streams and the rule for the
end of the input do not matter to it. -/
theorem Step.action_or_silent (h : Step p eof m s a) :
    (∃ action : Action, p.code[m.address]? = some action.toInstruction ∧
      a = m.carryOut (action.perform eof m.tape s)) ∨
    (a.streams = s ∧ a.events = [] ∧ ∀ eof s, Step p eof m s { a with streams := s }) := by
  cases h with
  | action h => exact .inl ⟨_, h, rfl⟩
  | enter h hcell => exact .inr ⟨rfl, rfl, fun _ _ => .enter h hcell⟩
  | skip h hcell htarget => exact .inr ⟨rfl, rfl, fun _ _ => .skip h hcell htarget⟩
  | unpaired h hcell htarget => exact .inr ⟨rfl, rfl, fun _ _ => .unpaired h hcell htarget⟩
  | leave h hloops hcell => exact .inr ⟨rfl, rfl, fun _ _ => .leave h hloops hcell⟩
  | again h hloops hcell => exact .inr ⟨rfl, rfl, fun _ _ => .again h hloops hcell⟩
  | stray h hloops => exact .inr ⟨rfl, rfl, fun _ _ => .stray h hloops⟩

/-- A completed instruction is counted; an instruction that fails leaves the machine as it was. -/
theorem Step.completed_or_unchanged (h : Step p eof m s a) :
    (a.fault = none ∧ a.machine.steps = m.steps + 1) ∨ (a.fault.isSome ∧ a.machine = m) := by
  cases h with
  | @action action _ =>
      rcases action.perform eof m.tape s with ⟨_ | _, _, _⟩
      · exact .inr ⟨rfl, rfl⟩
      · exact .inl ⟨rfl, rfl⟩
  | enter | skip | leave | again => exact .inl ⟨rfl, rfl⟩
  | unpaired | stray => exact .inr ⟨rfl, rfl⟩

theorem Step.machine_of_fault (h : Step p eof m s a) {fault : Fault}
    (hf : a.fault = some fault) : a.machine = m := by
  rcases h.completed_or_unchanged with ⟨hnone, -⟩ | ⟨-, hm⟩
  · simp [hf] at hnone
  · exact hm

theorem Step.of_unmatchedLoopStart (h : Step p eof m s a) {address : Nat}
    (hf : a.fault = some (.unmatchedLoopStart address)) :
    p.code[m.address]? = some .loopStart ∧ p.jumpTarget? m.address = none := by
  cases h with
  | action =>
      obtain ⟨obstacle, -, hobstacle⟩ := fault_carryOut hf
      cases obstacle <;> contradiction
  | unpaired h _ htarget => exact ⟨h, htarget⟩
  | stray => simp at hf
  | enter | skip | leave | again => contradiction

theorem Step.of_unmatchedLoopEnd (h : Step p eof m s a) {address : Nat}
    (hf : a.fault = some (.unmatchedLoopEnd address)) :
    address = m.address ∧ p.code[m.address]? = some .loopEnd ∧ m.loops = [] := by
  cases h with
  | action =>
      obtain ⟨obstacle, -, hobstacle⟩ := fault_carryOut hf
      cases obstacle <;> contradiction
  | stray h hloops =>
      obtain rfl : m.address = address := by simpa using hf
      exact ⟨rfl, h, hloops⟩
  | unpaired => simp at hf
  | enter | skip | leave | again => contradiction

end Machine

end TapeMachine
