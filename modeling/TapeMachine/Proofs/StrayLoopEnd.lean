import Mathlib.Order.Bounds.Defs
import TapeMachine.Proofs.LoopStack

/-!
# Stray loop ends

A loop end that closes nothing is accepted when a text is read, and the machine only learns of it
when it gets there and finds its loop stack empty.  No jump leads over such a loop end: a skip that
did would start in a loop that is open there.  So the leftmost stray loop end is a barrier that
every run stops at or before, and without stray loop ends the machine never complains of one.
-/

namespace TapeMachine

open LoopScan Moment

namespace Machine

variable {p : Program} {config : Config} {eof : EofPolicy} {m : Machine} {s : Streams}
  {a : Attempt} {e : Nat}

/-- Where no loop is open, no step leads from the front to behind. -/
theorem Aligned.address_le_of_step (hp : p.Paired) (hm : Aligned p m) (he : p.IsStray e)
    (hle : m.address ≤ e) (h : Step p eof m s a) : a.machine.address ≤ e := by
  have hpass {i : Instruction} (hi : p.code[m.address]? = some i) (hne : i ≠ .loopEnd) :
      m.address + 1 ≤ e := by
    refine Nat.lt_of_le_of_ne hle ?_
    rintro rfl
    exact hne (Option.some.inj (hi.symm.trans he.1))
  have hopen (hloops : m.loops ≠ []) : m.address < e := by
    refine Nat.lt_of_le_of_ne hle ?_
    rintro rfl
    exact hloops (hm.loops_eq.trans he.2)
  cases h with
  | @action action h =>
      rcases action.perform eof m.tape s with ⟨_ | tape, _, _⟩
      · exact hle
      · exact hpass h (by cases action <;> simp [Action.toInstruction])
  | enter h => exact hpass h (by simp)
  | @skip target h hcell htarget =>
      change target + 1 ≤ e
      -- a loop that leads over `e` would be open there
      by_contra hover
      have hmem : m.address ∈ openAt p.code.toList e := by
        refine (hp.mem_openAt_iff (Array.getElem?_eq_some_iff.1 he.1).1.le).2 ?_
        exact ⟨hpass h (by simp), target, htarget, by omega⟩
      rw [he.2] at hmem
      exact List.not_mem_nil hmem
  | unpaired => exact hle
  | leave h hloops => exact hopen (by simp [hloops])
  | again h hloops =>
      have hback := (hm.start_lt hloops).1
      exact hback.trans_le hle
  | stray => exact hle

theorem Reachable.address_le (hp : p.Paired) (he : p.IsStray e) (hm : Reachable p config m) :
    m.address ≤ e := by
  induction hm with
  | new h =>
      obtain ⟨tape, -, rfl⟩ := new_eq_ok_iff.1 h
      exact Nat.zero_le e
  | step hm h ih => exact (hm.aligned hp).address_le_of_step hp he ih (step_of_step? h)

/-- Every machine that can come about attempts only instructions up to a stray loop end. -/
theorem Reachable.fault_ne_none (hp : p.Paired) (he : p.IsStray e) (hm : Reachable p config m)
    {fuel : Nat} {r : Report} (h : m.run p config.eof fuel s = some r) : r.fault ≠ none := by
  obtain ⟨d, a, hreach, hending, hr⟩ := hm.exists_ending h
  have hlt : d.machine.address < p.size :=
    (hreach.address_le hp he).trans_lt (Array.getElem?_eq_some_iff.1 he.1).1
  rcases ending?_eq_some_iff.1 hending with ⟨hnone, -⟩ | ⟨made, fault, -, -, hfault⟩
  · exact absurd (step?_eq_none_iff.1 hnone) hlt.not_ge
  · rcases finish_fault_cases hr with hf | ⟨hnone, -⟩
    · simp [hf, hfault]
    · simp [hfault] at hnone

theorem Reachable.isStray_of_run (hp : p.Paired) (hm : Reachable p config m) {fuel : Nat}
    {r : Report} {address : Nat} (h : m.run p config.eof fuel s = some r)
    (hf : r.fault = some (.unmatchedLoopEnd address)) :
    p.IsStray address ∧ ∃ d, Reachable p config d ∧ d.address = address := by
  obtain ⟨d, a, hreach, hending, hr⟩ := hm.exists_ending h
  have hfault : a.fault = some (.unmatchedLoopEnd address) := by
    rcases finish_fault_cases hr with hsame | ⟨-, e, hflush⟩
    · exact hsame.symm.trans hf
    · simp [hflush] at hf
  rcases ending?_eq_some_iff.1 hending with ⟨-, rfl⟩ | ⟨made, fault, hs, -, hfault'⟩
  · contradiction
  · obtain rfl := Option.some.inj (hfault'.symm.trans hfault)
    obtain ⟨rfl, hcode, hloops⟩ := (step_of_step? hs).of_unmatchedLoopEnd rfl
    have hopen := (hreach.aligned hp).loops_eq
    exact ⟨⟨hcode, hopen.symm.trans hloops⟩, d.machine, hreach, rfl⟩

/-- The leftmost stray loop end cannot be passed.  No machine that can come about stands behind it
or, in the middle of a run, gets behind it; no run succeeds; and whenever a run reports a loop end
without a loop, it is that one.  In a program without stray loop ends no run reports any. -/
theorem stray_loopEnd_barrier {source : String} (hparse : Program.parse source = .ok p) :
    (∀ e, IsLeast {address | p.IsStray address} e →
      ∀ config m, Reachable p config m →
        m.address ≤ e ∧
          (∀ s n d, Moment.after p config.eof n ⟨m, s, []⟩ = some d → d.machine.address ≤ e) ∧
          (∀ fuel s r, m.run p config.eof fuel s = some r →
            r.fault ≠ none ∧ ∀ address, r.fault = some (.unmatchedLoopEnd address) →
              address = e)) ∧
      ((∀ address, ¬ p.IsStray address) →
        ∀ config m, Reachable p config m →
          ∀ fuel s r address, m.run p config.eof fuel s = some r →
            r.fault ≠ some (.unmatchedLoopEnd address)) := by
  have hp : p.Paired := Program.paired_of_parse hparse
  constructor
  · intro e he config m hm
    refine ⟨hm.address_le hp he.1, ?_, ?_⟩
    · intro s n d hd
      have hreach : Reachable p config d.machine := Reachable.after (c := ⟨m, s, []⟩) hm hd
      exact hreach.address_le hp he.1
    · intro fuel s r hr
      refine ⟨hm.fault_ne_none hp he.1 hr, ?_⟩
      intro address hf
      obtain ⟨hstray, d, hd, rfl⟩ := hm.isStray_of_run hp hr hf
      exact le_antisymm (hd.address_le hp he.1) (he.2 hstray)
  · intro hnone config m hm fuel s r address hr hf
    exact hnone address (hm.isStray_of_run hp hr hf).1

/-- The second loop end of the first program is stray, and the run that gets there reports it.  The
second program has no other loop end than the one it needs. -/
theorem stray_loopEnd_barrier_behind_loop :
    (∃ (p : Program) (m : Machine) (r : Report), Program.parse "+[-]]+" = .ok p ∧
      IsLeast {address | p.IsStray address} 4 ∧
      Reachable p { tapeLength := ⟨2, by decide, by decide⟩ } m ∧ m.address ≤ 4 ∧
      m.run p .zero 6 {} = some r ∧ r.fault ≠ none ∧
      ∀ address, r.fault = some (.unmatchedLoopEnd address) → address = 4) ∧
    ∃ (p : Program) (m : Machine) (r : Report), Program.parse "+[-]" = .ok p ∧
      (∀ address, ¬ p.IsStray address) ∧
      Reachable p { tapeLength := ⟨2, by decide, by decide⟩ } m ∧
      m.run p .zero 6 {} = some r ∧ ∀ address, r.fault ≠ some (.unmatchedLoopEnd address) := by
  let config : Config := { tapeLength := ⟨2, by decide, by decide⟩ }
  let m : Machine := { tape := ⟨#[0, 0], 0, .bounded, by decide⟩ }
  have hnew : new config = .ok m := by rfl
  constructor
  · let p : Program :=
      { code := #[.increment, .loopStart, .decrement, .loopEnd, .loopEnd, .increment]
        jumps := #[none, some 3, none, none, none, none]
        size_jumps := rfl }
    have hparse : Program.parse "+[-]]+" = .ok p := by rfl
    have hbelow : ∀ address < 4, ¬ p.IsStray address := by decide
    have hleast : IsLeast {address | p.IsStray address} 4 :=
      ⟨by decide, fun address h => Nat.le_of_not_lt fun hlt => hbelow address hlt h⟩
    have hm : Reachable p config m := Reachable.new hnew
    obtain ⟨r, hr⟩ := Option.isSome_iff_exists.1 (by decide : (m.run p .zero 6 {}).isSome)
    obtain ⟨haddress, -, hruns⟩ := (stray_loopEnd_barrier hparse).1 4 hleast config m hm
    obtain ⟨hfault, hnamed⟩ := hruns 6 {} r hr
    exact ⟨p, m, r, hparse, hleast, hm, haddress, hr, hfault, hnamed⟩
  · let p : Program :=
      { code := #[.increment, .loopStart, .decrement, .loopEnd]
        jumps := #[none, some 3, none, none]
        size_jumps := rfl }
    have hparse : Program.parse "+[-]" = .ok p := by rfl
    have hbelow : ∀ address < 4, ¬ p.IsStray address := by decide
    have hstray : ∀ address, ¬ p.IsStray address := fun address h =>
      hbelow address (Array.getElem?_eq_some_iff.1 h.1).1 h
    have hm : Reachable p config m := Reachable.new hnew
    obtain ⟨r, hr⟩ := Option.isSome_iff_exists.1 (by decide : (m.run p .zero 6 {}).isSome)
    have hnamed (address : Nat) : r.fault ≠ some (.unmatchedLoopEnd address) :=
      (stray_loopEnd_barrier hparse).2 hstray config m hm 6 {} r address hr
    exact ⟨p, m, r, hparse, hstray, hm, hr, hnamed⟩

end Machine

end TapeMachine
