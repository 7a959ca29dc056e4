import TapeMachine.Proofs.LoopTable
import TapeMachine.Proofs.Moment

/-!
# The machine's loop stack

The machine keeps a stack of the loops it is repeating, and the loop table was made before it
started.  They never disagree: in every machine that can come about, the stack consists of the
loops that were open when the scan had read the instructions in front of the current address.  A
skip keeps this because behind a loop the same loops are open as in front of it, and going back
into a loop keeps it because under an open loop nothing changes.
-/

namespace TapeMachine

open LoopScan

namespace Machine

/-- The machine stands inside the program or at its end, in exactly the loops that are open
there. -/
structure Aligned (p : Program) (m : Machine) : Prop where
  address_le : m.address ≤ p.size
  loops_eq : m.loops = openAt p.code.toList m.address

variable {p : Program} {config : Config} {eof : EofPolicy} {m : Machine} {s : Streams}
  {a : Attempt}

theorem aligned_new (h : new config = .ok m) : Aligned p m := by
  obtain ⟨tape, -, rfl⟩ := new_eq_ok_iff.1 h
  exact ⟨Nat.zero_le _, rfl⟩

theorem Aligned.openAt_succ (hm : Aligned p m) {i : Instruction}
    (h : p.code[m.address]? = some i) :
    openAt p.code.toList (m.address + 1) = openBehind m.loops m.address i := by
  rw [LoopScan.openAt_succ (Array.getElem?_toList ▸ h), hm.loops_eq]

theorem Aligned.start_lt (hm : Aligned p m) {start : Nat} {outer : List Nat}
    (hloops : m.loops = start :: outer) :
    start < m.address ∧ p.code[start]? = some .loopStart := by
  have hmem : start ∈ openAt p.code.toList m.address := by
    rw [← hm.loops_eq, hloops]
    exact List.mem_cons_self
  rw [← Array.getElem?_toList]
  exact mem_openAt hmem

theorem Aligned.step (hp : p.Paired) (hm : Aligned p m) (h : Step p eof m s a) :
    Aligned p a.machine := by
  have hlt : m.address < p.size := h.lt_size
  cases h with
  | @action action h =>
      rcases action.perform eof m.tape s with ⟨_ | tape, _, _⟩
      · exact hm
      · refine ⟨hlt, ?_⟩
        exact ((hm.openAt_succ h).trans (action.openBehind_eq _ _)).symm
  | enter h => exact ⟨hlt, (hm.openAt_succ h).symm⟩
  | skip h hcell htarget =>
      -- behind the loop that is skipped the same loops are open as in front of it
      refine ⟨(hp.lt_of_jumpTarget? htarget).2, ?_⟩
      exact hm.loops_eq.trans (hp.openAt_behind htarget).symm
  | unpaired => exact hm
  | leave h hloops =>
      refine ⟨hlt, ?_⟩
      have hopen := hm.openAt_succ h
      rw [hloops] at hopen
      exact hopen.symm
  | @again start outer h hloops =>
      obtain ⟨hstart, hcode⟩ := hm.start_lt hloops
      refine ⟨Nat.succ_le_of_lt (hstart.trans hlt), ?_⟩
      -- what lies under the loop is what was open when it was entered
      have houter : outer = openAt p.code.toList start :=
        outer_of_openAt_eq_cons (hm.loops_eq.symm.trans hloops)
      change m.loops = openAt p.code.toList (start + 1)
      rw [LoopScan.openAt_succ (Array.getElem?_toList ▸ hcode), hloops, houter]
      rfl
  | stray => exact hm

theorem Reachable.aligned (hp : p.Paired) (hm : Reachable p config m) : Aligned p m := by
  induction hm with
  | new h => exact aligned_new h
  | step _ h ih => exact ih.step hp (step_of_step? h)

theorem Aligned.head?_loops (hp : p.Paired) (hm : Aligned p m) {start : Nat}
    (h : p.jumpTarget? start = some m.address) : m.loops.head? = some start := by
  rw [hm.loops_eq]
  exact (hp.jumpTarget?_eq_some_iff.1 h).2

theorem Step.ne_unmatchedLoopStart (hp : p.Paired) (h : Step p eof m s a) (address : Nat) :
    a.fault ≠ some (.unmatchedLoopStart address) := by
  intro hf
  obtain ⟨hcode, htarget⟩ := h.of_unmatchedLoopStart hf
  obtain ⟨target, ht⟩ := hp.exists_jumpTarget? hcode
  rw [htarget] at ht
  contradiction

/-- The stack and the table describe the same loops in every machine that can come about: the stack
is what the scan had waiting at the current address, and it holds the loops whose ends enclose that
address.  So a loop end that has a partner finds it on top, a loop start is never without one, and
at the end of the program no loop is left. -/
theorem loops_of_reachable {source : String} (hparse : Program.parse source = .ok p)
    (hm : Reachable p config m) :
    m.address ≤ p.size ∧
      m.loops.reverse = p.loopsAround m.address ∧
      m.loops = (LoopScan.ofCode (p.code.toList.take m.address)).waiting ∧
      (∀ start, p.jumpTarget? start = some m.address → m.loops.head? = some start) ∧
      (∀ s a address, m.step? p config.eof s = some a →
        a.fault ≠ some (.unmatchedLoopStart address)) ∧
      (m.address = p.size → m.loops = []) := by
  have hp : p.Paired := Program.paired_of_parse hparse
  have haligned : Aligned p m := hm.aligned hp
  refine ⟨haligned.address_le, ?_, haligned.loops_eq, ?_, ?_, ?_⟩
  · rw [haligned.loops_eq]
    exact hp.reverse_openAt haligned.address_le
  · intro start h
    exact haligned.head?_loops hp h
  · intro s a address h
    exact (step_of_step? h).ne_unmatchedLoopStart hp address
  · intro hend
    rw [haligned.loops_eq, hend]
    exact hp.openAt_size

/-- Inside two loops, at the instruction that empties the cell. -/
theorem loops_of_reachable_nested :
    ∃ (p : Program) (m : Machine), Program.parse "+[[-]]" = .ok p ∧
      Reachable p { tapeLength := ⟨2, by decide, by decide⟩ } m ∧ m.loops = [2, 1] ∧
        m.loops.reverse = p.loopsAround m.address := by
  let p : Program :=
    { code := #[.increment, .loopStart, .loopStart, .decrement, .loopEnd, .loopEnd]
      jumps := #[none, some 5, some 4, none, none, none]
      size_jumps := rfl }
  let start : Machine := { tape := ⟨#[0, 0], 0, .bounded, by decide⟩ }
  let inner : Machine :=
    { tape := ⟨#[1, 0], 0, .bounded, by decide⟩, loops := [2, 1], address := 3, steps := 3 }
  have hparse : Program.parse "+[[-]]" = .ok p := by rfl
  have hstart : Reachable p { tapeLength := ⟨2, by decide, by decide⟩ } start :=
    Reachable.new (by rfl)
  have hafter : Moment.after p .zero 3 ⟨start, {}, []⟩ = some ⟨inner, {}, []⟩ := by rfl
  have hinner := Reachable.after (c := ⟨start, {}, []⟩) hstart hafter
  exact ⟨p, inner, hparse, hinner, rfl, (loops_of_reachable hparse hinner).2.1⟩

end Machine

end TapeMachine
