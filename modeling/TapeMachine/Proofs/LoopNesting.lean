import Mathlib.Data.Set.Function
import TapeMachine.Proofs.StackHeight

/-!
# How loops lie in each other

The loop table pairs each loop start with one loop end, and every loop end that is not stray with
one loop start.  What is between the two is balanced, two loops are disjoint or one lies inside the
other, and no stray loop end lies inside a loop.  Which loop ends are stray can be told by counting
from the front: they are those behind which the loop ends are ahead by more than at any place
before.
-/

namespace TapeMachine

open LoopScan DepthScan

namespace Program

/-- The instructions between the two ends of a loop. -/
def between (p : Program) (start stop : Nat) : List Instruction :=
  (p.code.toList.take stop).drop (start + 1)

/-- A loop end with which the loop ends get further ahead of the loop starts than in any shorter
part at the front of the code, the empty part included. -/
def SetsRecord (p : Program) (address : Nat) : Prop :=
  p.code[address]? = some .loopEnd ∧ ∀ before ≤ address,
    excess (p.code.toList.take (address + 1)) < excess (p.code.toList.take before)

instance (p : Program) (address : Nat) : Decidable (p.SetsRecord address) :=
  inferInstanceAs (Decidable (_ ∧ _))

variable {p : Program} {start start' stop stop' address : Nat}

theorem isStray_iff_setsRecord : p.IsStray address ↔ p.SetsRecord address := by
  refine and_congr_right fun hcode => ?_
  rw [← Array.getElem?_toList] at hcode
  rw [openAt_eq_nil_iff, excess_take_succ hcode]
  exact forall₂_congr fun before _ => Int.sub_one_lt_iff.symm

theorem Paired.mem_openAt_of_jumpTarget? (hp : p.Paired) (h : p.jumpTarget? start = some stop) :
    start ∈ openAt p.code.toList stop :=
  List.mem_of_mem_head? (hp.jumpTarget?_eq_some_iff.1 h).2

theorem Paired.loopStart_of_jumpTarget? (hp : p.Paired)
    (h : p.jumpTarget? start = some stop) : p.code[start]? = some .loopStart := by
  rw [← Array.getElem?_toList]
  exact (mem_openAt (hp.mem_openAt_of_jumpTarget? h)).2

theorem Paired.not_setsRecord (hp : p.Paired) (h : p.jumpTarget? start = some stop) :
    ¬ p.SetsRecord stop := by
  intro hrecord
  have hhead := (hp.jumpTarget?_eq_some_iff.1 h).2
  rw [(isStray_iff_setsRecord.2 hrecord).2] at hhead
  contradiction

/-- The table sends the loop starts one to one onto the loop ends that are not stray. -/
theorem Paired.bijOn_jumpTarget? (hp : p.Paired) :
    Set.BijOn p.jumpTarget? {start | p.code[start]? = some .loopStart}
      (some '' {stop | p.code[stop]? = some .loopEnd ∧ ¬ p.SetsRecord stop}) := by
  refine ⟨?_, ?_, ?_⟩
  · intro start hstart
    obtain ⟨stop, hstop⟩ := hp.exists_jumpTarget? hstart
    rw [hstop]
    exact ⟨stop, ⟨(hp.jumpTarget?_eq_some_iff.1 hstop).1, hp.not_setsRecord hstop⟩, rfl⟩
  · intro start hstart start' _ heq
    obtain ⟨stop, hstop⟩ := hp.exists_jumpTarget? hstart
    have hhead := (hp.jumpTarget?_eq_some_iff.1 hstop).2
    have hhead' := (hp.jumpTarget?_eq_some_iff.1 (heq.symm.trans hstop)).2
    exact Option.some.inj (hhead.symm.trans hhead')
  · rintro - ⟨stop, ⟨hstop, hrecord⟩, rfl⟩
    rcases hp.isStray_or_exists hstop with hstray | ⟨start, hstart⟩
    · exact absurd (isStray_iff_setsRecord.1 hstray) hrecord
    · exact ⟨start, hp.loopStart_of_jumpTarget? hstart, hstart⟩

/-- What is between the ends of a loop never gets behind, and in the end it is balanced. -/
theorem Paired.excess_between (hp : p.Paired) (h : p.jumpTarget? start = some stop) :
    excess (p.between start stop) = 0 ∧
      ∀ front, front <+: p.between start stop → 0 ≤ excess front := by
  have hmem := hp.mem_openAt_of_jumpTarget? h
  obtain ⟨hlt, hstart⟩ := mem_openAt hmem
  obtain ⟨hstop, hhead⟩ := hp.jumpTarget?_eq_some_iff.1 h
  rw [← Array.getElem?_toList] at hstop
  have hsize : stop < p.code.toList.length := (List.getElem?_eq_some_iff.1 hstop).1
  constructor
  · have hdepth := depthBehind_eq_zero hstart hstop hhead
    have hread : (p.code.toList.take (stop + 1)).drop (start + 1) =
        p.between start stop ++ [.loopEnd] := by
      have hinside : start + 1 ≤ (p.code.toList.take stop).length := by
        rw [List.length_take]
        omega
      rw [between, List.take_add_one, hstop, Option.toList_some,
        List.drop_append_of_le_length hinside]
    rw [depthBehind_eq, hread, excess_append, excess_singleton] at hdepth
    simp only [nesting] at hdepth
    omega
  · intro front hfront
    have hlength : front.length ≤ stop - (start + 1) := by
      have hle := hfront.length_le
      rw [between, List.length_drop, List.length_take] at hle
      omega
    have hread : front = (p.code.toList.take (start + front.length + 1)).drop (start + 1) := by
      have htake := List.prefix_iff_eq_take.1 hfront
      have hend : start + 1 + front.length = start + front.length + 1 := by omega
      rw [between, List.take_drop, List.take_take, hend, min_eq_left (by omega)] at htake
      exact htake
    have hdepth := one_le_depthBehind hstart (Nat.le_add_right start front.length) (by omega)
      (mem_openAt_of_le hmem (by omega) (by omega))
    rw [depthBehind_eq, ← hread] at hdepth
    omega

/-- A loop that starts behind the start of another one lies behind it or inside it. -/
theorem Paired.behind_or_inside (hp : p.Paired) (h : p.jumpTarget? start = some stop)
    (h' : p.jumpTarget? start' = some stop') (hlt : start < start') :
    stop < start' ∨ stop' < stop := by
  by_contra hcross
  obtain ⟨hle, hle'⟩ := not_or.1 hcross
  have hne : start' ≠ stop := by
    rintro rfl
    have hcode := hp.loopStart_of_jumpTarget? h'
    rw [(hp.jumpTarget?_eq_some_iff.1 h).1] at hcode
    contradiction
  -- both loops would be open at the end of the first one, with the first one on top
  have hopen' : start' ∈ openAt p.code.toList stop :=
    (hp.mem_openAt_iff (hp.lt_of_jumpTarget? h).2.le).2 ⟨by omega, stop', h', by omega⟩
  obtain ⟨outer, houter⟩ := List.head?_eq_some_iff.1 (hp.jumpTarget?_eq_some_iff.1 h).2
  have hsorted := pairwise_openAt p.code.toList stop
  rw [houter] at hopen' hsorted
  rcases List.mem_cons.1 hopen' with rfl | houter'
  · exact lt_irrefl _ hlt
  · exact (List.pairwise_cons.1 hsorted).1 start' houter' |>.not_gt hlt

/-- No stray loop end lies inside a loop. -/
theorem Paired.stray_outside (hp : p.Paired) (h : p.jumpTarget? start = some stop)
    (hstray : p.SetsRecord address) : address < start ∨ stop < address := by
  obtain ⟨hcode, hclosed⟩ := isStray_iff_setsRecord.2 hstray
  by_contra hinside
  have hne : address ≠ start := by
    rintro rfl
    rw [hp.loopStart_of_jumpTarget? h] at hcode
    contradiction
  have hopen : start ∈ openAt p.code.toList address :=
    (hp.mem_openAt_iff (Array.getElem?_eq_some_iff.1 hcode).1.le).2
      ⟨by omega, stop, h, by omega⟩
  rw [hclosed] at hopen
  exact List.not_mem_nil hopen

/-- In an accepted program the loop starts are paired one to one with the loop ends that are not
stray; a loop end is stray if and only if with it the loop ends get further ahead than ever before.
A loop ends behind its start and inside the program.  What is between is balanced: it has as many
loop starts as loop ends, and no part at its front has more loop ends.  Two different loops are
disjoint or one lies strictly inside the other, and no stray loop end lies inside a loop. -/
theorem loops_are_laminar {source : String} (hparse : parse source = .ok p) :
    Set.BijOn p.jumpTarget? {start | p.code[start]? = some .loopStart}
        (some '' {stop | p.code[stop]? = some .loopEnd ∧ ¬ p.SetsRecord stop}) ∧
      (∀ address, p.IsStray address ↔ p.SetsRecord address) ∧
      ∀ start stop, p.jumpTarget? start = some stop →
        start < stop ∧ stop < p.size ∧
          (p.between start stop).count .loopStart = (p.between start stop).count .loopEnd ∧
          (∀ front, front <+: p.between start stop →
            front.count .loopEnd ≤ front.count .loopStart) ∧
          (∀ start' stop', p.jumpTarget? start' = some stop' → start' ≠ start →
            (stop < start' ∨ stop' < start) ∨
              (start < start' ∧ stop' < stop) ∨ (start' < start ∧ stop < stop')) ∧
          ∀ stray, p.SetsRecord stray → stray < start ∨ stop < stray := by
  have hp : p.Paired := paired_of_parse hparse
  refine ⟨hp.bijOn_jumpTarget?, fun address => isStray_iff_setsRecord, ?_⟩
  intro start stop h
  obtain ⟨hlt, hsize⟩ := hp.lt_of_jumpTarget? h
  obtain ⟨hbalanced, hfront⟩ := hp.excess_between h
  refine ⟨hlt, hsize, ?_, ?_, ?_, ?_⟩
  · rw [excess] at hbalanced
    omega
  · intro front hprefix
    have hle := hfront front hprefix
    rw [excess] at hle
    omega
  · intro start' stop' h' hne
    rcases Nat.lt_or_gt_of_ne hne with hbefore | hbehind
    · rcases hp.behind_or_inside h' h hbefore with hdisjoint | hinside
      · exact .inl (.inr hdisjoint)
      · exact .inr (.inr ⟨hbefore, hinside⟩)
    · rcases hp.behind_or_inside h h' hbehind with hdisjoint | hinside
      · exact .inl (.inl hdisjoint)
      · exact .inr (.inl ⟨hbehind, hinside⟩)
  · intro stray hstray
    exact hp.stray_outside h hstray

/-- A loop with two loops in it, between two loop ends that are stray. -/
theorem loops_are_laminar_between_strays :
    ∃ p, parse "]+[[-]>[]]]" = .ok p ∧ p.jumpTarget? 2 = some 9 ∧ p.jumpTarget? 3 = some 5 ∧
      p.jumpTarget? 7 = some 8 ∧ p.SetsRecord 0 ∧ p.SetsRecord 10 ∧
      Set.BijOn p.jumpTarget? {start | p.code[start]? = some .loopStart}
        (some '' {stop | p.code[stop]? = some .loopEnd ∧ ¬ p.SetsRecord stop}) ∧
      (p.between 2 9).count .loopStart = (p.between 2 9).count .loopEnd ∧
      ((9 < 3 ∨ 5 < 2) ∨ (2 < 3 ∧ 5 < 9) ∨ (3 < 2 ∧ 9 < 5)) ∧
      ((5 < 7 ∨ 8 < 3) ∨ (3 < 7 ∧ 8 < 5) ∨ (7 < 3 ∧ 5 < 8)) ∧ (10 < 2 ∨ 9 < 10) := by
  let p : Program :=
    { code := #[.loopEnd, .increment, .loopStart, .loopStart, .decrement, .loopEnd, .moveRight,
        .loopStart, .loopEnd, .loopEnd, .loopEnd]
      jumps := #[none, none, some 9, some 5, none, none, none, some 8, none, none, none]
      size_jumps := rfl }
  have hparse : parse "]+[[-]>[]]]" = .ok p := by rfl
  have houter : p.jumpTarget? 2 = some 9 := by decide
  have hfirst : p.jumpTarget? 3 = some 5 := by decide
  have hsecond : p.jumpTarget? 7 = some 8 := by decide
  have hlast : p.SetsRecord 10 := by decide
  obtain ⟨hbij, -, hloops⟩ := loops_are_laminar hparse
  obtain ⟨-, -, hbalanced, -, hothers, hstrays⟩ := hloops 2 9 houter
  obtain ⟨-, -, -, -, hothers', -⟩ := hloops 3 5 hfirst
  exact ⟨p, hparse, houter, hfirst, hsecond, by decide, hlast, hbij, hbalanced,
    hothers 3 5 hfirst (by decide), hothers' 7 8 hsecond (by decide), hstrays 10 hlast⟩

end Program

end TapeMachine
