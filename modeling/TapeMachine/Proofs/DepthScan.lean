import Mathlib.Algebra.Ring.Int.Defs
import Mathlib.Order.Bounds.Basic
import TapeMachine.Proofs.LoopTable

/-!
# Partners by nesting depth

The partner of a loop start can be described without a stack.  Count the nesting depth from one just
behind the loop start, up at each loop start and down at each loop end; the partner is where the
depth first returns to zero.  The table that is filled in one pass is the same: as long as a loop is
open, the stack is higher than in front of the loop by exactly that depth.  This holds for all the
open loops at once and is not disturbed by loop ends that close nothing.
-/

namespace TapeMachine

namespace DepthScan

/-- How an instruction changes the nesting depth. -/
def nesting : Instruction → Int
  | .loopStart => 1
  | .loopEnd => -1
  | _ => 0

/-- The nesting depth behind an address, counted from one just behind `start`. -/
def depthBehind (code : List Instruction) (start address : Nat) : Int :=
  1 + (((code.take (address + 1)).drop (start + 1)).map nesting).sum

/-- The first address behind `start` at which the depth is back at zero. -/
def partner? (code : List Instruction) (start : Nat) : Option Nat :=
  (List.range code.length).find? fun address =>
    start < address && depthBehind code start address = 0

/-- The loop starts whose depth never returns to zero. -/
def unmatched (code : List Instruction) : Set Nat :=
  {start | code[start]? = some .loopStart ∧ partner? code start = none}

open LoopScan

variable {code : List Instruction} {start address e : Nat}

theorem depthBehind_self (code : List Instruction) (start : Nat) :
    depthBehind code start start = 1 := by
  have hnone : (code.take (start + 1)).drop (start + 1) = [] :=
    List.drop_eq_nil_of_le (List.length_take_le _ _)
  rw [depthBehind, hnone]
  rfl

theorem depthBehind_succ (hle : start ≤ address) {i : Instruction}
    (h : code[address + 1]? = some i) :
    depthBehind code start (address + 1) = depthBehind code start address + nesting i := by
  have hlt : address + 1 < code.length := (List.getElem?_eq_some_iff.1 h).1
  have hlength : start + 1 ≤ (code.take (address + 1)).length := by
    rw [List.length_take]
    omega
  rw [depthBehind, depthBehind, List.take_add_one, h, Option.toList_some,
    List.drop_append_of_le_length hlength, List.map_append, List.sum_append, List.map_singleton,
    List.sum_singleton, Int.add_assoc]

/-- While a loop is open, the depth counted from it is the height of the stack above what was open
in front of the loop. -/
theorem length_openAt_succ (hstart : code[start]? = some .loopStart) (hle : start ≤ address)
    (hlt : address < code.length) (hopen : start < address → start ∈ openAt code address) :
    ((openAt code (address + 1)).length : Int) =
      (openAt code start).length + depthBehind code start address := by
  induction address, hle using Nat.le_induction with
  | base =>
      rw [depthBehind_self, openAt_succ hstart]
      simp [openBehind]
  | succ address hle ih =>
      have hmem : start ∈ openAt code (address + 1) := hopen (Nat.lt_succ_of_le hle)
      have hbefore : start < address → start ∈ openAt code address := by
        intro hstart'
        exact mem_openAt_of_le hmem hstart' (Nat.le_succ address)
      have hheight := ih (Nat.lt_of_succ_lt hlt) hbefore
      -- the loop is open, so a loop end here does close one
      have hpos : 0 < (openAt code (address + 1)).length := List.length_pos_of_mem hmem
      have hi : code[address + 1]? = some code[address + 1] := List.getElem?_eq_getElem hlt
      rw [depthBehind_succ hle hi, openAt_succ hi]
      cases code[address + 1] <;> simp only [openBehind, nesting, List.length_cons,
        List.length_tail] <;> omega

theorem one_le_depthBehind (hstart : code[start]? = some .loopStart) (hle : start ≤ address)
    (hlt : address < code.length) (hopen : start ∈ openAt code (address + 1)) :
    1 ≤ depthBehind code start address := by
  have hbefore : start < address → start ∈ openAt code address := by
    intro h
    exact mem_openAt_of_le hopen h (Nat.le_succ address)
  have hheight := length_openAt_succ hstart hle hlt hbefore
  have hsuffix := (suffix_openAt hopen).length_le
  rw [List.length_cons] at hsuffix
  omega

theorem depthBehind_eq_zero (hstart : code[start]? = some .loopStart)
    (he : code[e]? = some .loopEnd) (hhead : (openAt code e).head? = some start) :
    depthBehind code start e = 0 := by
  obtain ⟨outer, hopen⟩ := List.head?_eq_some_iff.1 hhead
  have hmem : start ∈ openAt code e := List.mem_of_mem_head? hhead
  have hlt : e < code.length := (List.getElem?_eq_some_iff.1 he).1
  have hheight := length_openAt_succ hstart (mem_openAt hmem).1.le hlt fun _ => hmem
  have houter : openAt code (e + 1) = openAt code start := by
    rw [openAt_succ he, hopen]
    exact outer_of_openAt_eq_cons hopen
  rw [houter] at hheight
  omega

theorem partner?_eq_some_iff :
    partner? code start = some e ↔
      e < code.length ∧ start < e ∧ depthBehind code start e = 0 ∧
        ∀ address, start < address → address < e → depthBehind code start address ≠ 0 := by
  rw [partner?, List.find?_range_eq_some]
  simp only [Bool.and_eq_true, decide_eq_true_eq, List.mem_range, Bool.not_eq_true',
    Bool.and_eq_false_imp, decide_eq_false_iff_not]
  tauto

/-- The depth first returns to zero at the loop end that is met while the loop is the innermost open
one. -/
theorem partner?_eq_some_iff_head? (hstart : code[start]? = some .loopStart) :
    partner? code start = some e ↔
      code[e]? = some .loopEnd ∧ (openAt code e).head? = some start := by
  rw [partner?_eq_some_iff]
  constructor
  · rintro ⟨hlt, hse, hzero, hfirst⟩
    have hopen : start ∈ openAt code e := by
      by_contra hclosed
      obtain ⟨e', hle, hlt', he', hhead⟩ :=
        exists_loopEnd (mem_openAt_succ hstart) hclosed hse
      exact hfirst e' hle hlt' (depthBehind_eq_zero hstart he' hhead)
    have hclosed : start ∉ openAt code (e + 1) := by
      intro hmem
      have hdepth := one_le_depthBehind hstart hse.le hlt hmem
      omega
    obtain ⟨e', hle, hlt', he', hhead⟩ := exists_loopEnd hopen hclosed (Nat.le_succ e)
    obtain rfl : e' = e := by omega
    exact ⟨he', hhead⟩
  · rintro ⟨he, hhead⟩
    have hmem : start ∈ openAt code e := List.mem_of_mem_head? hhead
    have hlt : e < code.length := (List.getElem?_eq_some_iff.1 he).1
    refine ⟨hlt, (mem_openAt hmem).1, depthBehind_eq_zero hstart he hhead, ?_⟩
    intro address hsa hae
    have hopen : start ∈ openAt code (address + 1) :=
      mem_openAt_of_le hmem (Nat.lt_succ_of_lt hsa) hae
    have hdepth := one_le_depthBehind hstart hsa.le (hae.trans hlt) hopen
    omega

theorem mem_unmatched_iff : start ∈ unmatched code ↔ start ∈ openAt code code.length := by
  constructor
  · rintro ⟨hstart, hnone⟩
    by_contra hclosed
    have hlt : start < code.length := (List.getElem?_eq_some_iff.1 hstart).1
    obtain ⟨e, -, -, he, hhead⟩ := exists_loopEnd (mem_openAt_succ hstart) hclosed hlt
    rw [(partner?_eq_some_iff_head? hstart).2 ⟨he, hhead⟩] at hnone
    contradiction
  · intro hopen
    have hstart := (mem_openAt hopen).2
    refine ⟨hstart, Option.eq_none_iff_forall_ne_some.2 ?_⟩
    intro e he
    obtain ⟨he, hhead⟩ := (partner?_eq_some_iff_head? hstart).1 he
    have hlt : e < code.length := (List.getElem?_eq_some_iff.1 he).1
    have hbefore := (mem_openAt (List.mem_of_mem_head? hhead)).1
    exact notMem_openAt_succ he hhead (mem_openAt_of_le hopen (Nat.lt_succ_of_lt hbefore) hlt)

end DepthScan

namespace Program

open LoopScan DepthScan

variable {code : List Instruction}

theorem isLeast_of_getLast? {address start : Nat}
    (h : (openAt code address).getLast? = some start) :
    IsLeast {start | start ∈ openAt code address} start := by
  refine ⟨List.mem_of_getLast? h, ?_⟩
  intro other hmem
  obtain ⟨inner, hinner⟩ := List.getLast?_eq_some_iff.1 h
  have hsorted := pairwise_openAt code address
  rw [hinner, List.pairwise_append] at hsorted
  rw [Set.mem_ofPred_eq, hinner, List.mem_append, List.mem_singleton] at hmem
  rcases hmem with hmem | rfl
  · exact (hsorted.2.2 other hmem start List.mem_cons_self).le
  · exact le_rfl

theorem Paired.jumpTarget?_eq_partner? {p : Program} (hp : p.Paired) (address : Nat) :
    p.jumpTarget? address =
      if p.code[address]? = some .loopStart then partner? p.code.toList address else none := by
  split
  · next hcode =>
      refine Option.ext fun e => ?_
      rw [← Array.getElem?_toList] at hcode
      rw [hp.jumpTarget?_eq_some_iff, partner?_eq_some_iff_head? hcode, Array.getElem?_toList]
  · next hcode =>
      rw [Option.eq_none_iff_forall_ne_some]
      intro e he
      have hhead := (hp.jumpTarget?_eq_some_iff.1 he).2
      have hstart := (mem_openAt (List.mem_of_mem_head? hhead)).2
      rw [Array.getElem?_toList] at hstart
      exact hcode hstart

/-- Filling the table in one pass gives what looking for each partner by its nesting depth gives.
If the depth returns to zero behind every loop start, the text is accepted with exactly its
instructions, and the table holds the partner of each loop start and nothing else.  If not, the
text is refused, and the leftmost loop start without a partner is named. -/
theorem parse_eq_depthScan (source : String) :
    (unmatched (Instruction.ofSource source) = ∅ →
      ∃ p, parse source = .ok p ∧ p.code.toList = Instruction.ofSource source ∧
        ∀ address, p.jumpTarget? address =
          if (Instruction.ofSource source)[address]? = some .loopStart
          then partner? (Instruction.ofSource source) address
          else none) ∧
      ((unmatched (Instruction.ofSource source)).Nonempty →
        ∃ address, IsLeast (unmatched (Instruction.ofSource source)) address ∧
          parse source = .error (.unmatchedLoopStart address)) := by
  have hunmatched : unmatched (Instruction.ofSource source) =
      {start | start ∈ openAt (Instruction.ofSource source)
        (Instruction.ofSource source).length} :=
    Set.ext fun start => mem_unmatched_iff
  cases hparse : parse source with
  | ok p =>
      have hp : p.Paired := paired_of_parse hparse
      have hcode := toList_code_of_parse hparse
      constructor
      · intro _
        refine ⟨p, rfl, hcode, ?_⟩
        intro address
        rw [← hcode, Array.getElem?_toList]
        exact hp.jumpTarget?_eq_partner? address
      · rintro ⟨start, hstart⟩
        -- nothing is open at the end of a text that was accepted
        have hend := hp.openAt_size
        rw [size, ← Array.length_toList, hcode] at hend
        rw [hunmatched, Set.mem_ofPred_eq, hend] at hstart
        exact absurd hstart List.not_mem_nil
  | error fault =>
      obtain ⟨address, hlast, rfl⟩ := ofCode_eq_error_iff.1 hparse
      have hleast := isLeast_of_getLast? hlast
      rw [← hunmatched] at hleast
      constructor
      · intro hempty
        have hmem := hleast.1
        rw [hempty] at hmem
        exact absurd hmem (Set.notMem_empty address)
      · intro _
        exact ⟨address, hleast, rfl⟩

/-- The first text has loop ends that close nothing in front of its loops and behind them; in the
second text both loop starts stay open. -/
theorem parse_eq_depthScan_stray_and_open :
    (∃ p, unmatched (Instruction.ofSource "][[-]>]]") = ∅ ∧ parse "][[-]>]]" = .ok p ∧
      p.jumpTarget? 1 = some 6 ∧ p.jumpTarget? 7 = none) ∧
    ((unmatched (Instruction.ofSource "+[-[")).Nonempty ∧
      ∃ address, IsLeast (unmatched (Instruction.ofSource "+[-[")) address ∧
        parse "+[-[" = .error (.unmatchedLoopStart address)) := by
  constructor
  · have hcode : Instruction.ofSource "][[-]>]]" = [.loopEnd, .loopStart, .loopStart, .decrement,
        .loopEnd, .moveRight, .loopEnd, .loopEnd] := by rfl
    have hempty : unmatched (Instruction.ofSource "][[-]>]]") = ∅ := by
      rw [Set.eq_empty_iff_forall_notMem, hcode]
      rintro start ⟨hstart, hnone⟩
      have hlt := (List.getElem?_eq_some_iff.1 hstart).1
      revert hstart hnone
      revert hlt start
      decide
    obtain ⟨p, hparse, -, htargets⟩ := (parse_eq_depthScan "][[-]>]]").1 hempty
    refine ⟨p, hempty, hparse, ?_, ?_⟩
    · rw [htargets, hcode]
      rfl
    · rw [htargets, hcode]
      rfl
  · have hcode : Instruction.ofSource "+[-[" =
        [.increment, .loopStart, .decrement, .loopStart] := by rfl
    have hopen : (unmatched (Instruction.ofSource "+[-[")).Nonempty := by
      refine ⟨1, ?_⟩
      rw [hcode]
      exact ⟨rfl, rfl⟩
    exact ⟨hopen, (parse_eq_depthScan "+[-[").2 hopen⟩

end Program

end TapeMachine
