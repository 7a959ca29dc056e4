import TapeMachine.Proofs.StackHeight

/-!
# Which texts are accepted

Whether a text is accepted can be seen by counting from its end: each part at the end must have at
least as many loop ends as loop starts.  If that fails, the loop start that is named is where the
excess of loop starts is greatest, and the last such place if there are several.  For in front of
it no loop is open, so that all the loops that stay open are counted from there; and further on at
least one of them has already begun.
-/

namespace TapeMachine

open LoopScan DepthScan

namespace LoopScan

variable {code : List Instruction} {start address : Nat}

/-- Nothing is open in front of the outermost open loop. -/
theorem openAt_of_getLast? (h : (openAt code address).getLast? = some start) :
    openAt code start = [] := by
  have hleast := Program.isLeast_of_getLast? h
  rw [List.eq_nil_iff_forall_not_mem]
  intro other hother
  have hopen : other ∈ openAt code address :=
    (suffix_openAt hleast.1).subset (List.mem_cons_of_mem start hother)
  exact absurd (mem_openAt hother).1 (hleast.2 hopen).not_gt

/-- From the outermost open loop on, all the open loops are counted. -/
theorem excess_drop_of_getLast? (h : (openAt code code.length).getLast? = some start) :
    excess (code.drop start) = (openAt code code.length).length := by
  have hmem : start ∈ openAt code code.length := List.mem_of_getLast? h
  obtain ⟨hlt, hstart⟩ := mem_openAt hmem
  obtain ⟨last, hlast⟩ := Nat.exists_eq_add_of_lt hlt
  have hend : start + last + 1 = code.length := hlast.symm
  have hheight := length_openAt_succ hstart (Nat.le_add_right start last) (by omega) fun hle =>
    mem_openAt_of_le hmem hle (by omega)
  rw [depthBehind_eq_excess hstart (Nat.le_add_right start last), hend, List.take_length,
    openAt_of_getLast? h] at hheight
  rw [hheight, List.length_nil, Nat.cast_zero, zero_add]

/-- Further on, one of the open loops has begun already. -/
theorem excess_drop_lt_of_open (hopen : start ∈ openAt code code.length) (hlt : start < address) :
    excess (code.drop address) < excess (code.drop start) := by
  have hbefore : 1 ≤ excess ((code.take address).drop start) := by
    rcases le_total address code.length with hle | hle
    · exact one_le_excess_of_open (mem_openAt_of_le hopen hlt hle) hle
    · rw [List.take_of_length_le hle]
      have hwhole := one_le_excess_of_open hopen le_rfl
      rwa [List.take_length] at hwhole
  have hsplit := excess_drop hlt.le (mem_openAt hopen).1.le
  omega

theorem isGreatest_excess_drop_iff :
    IsGreatest (endings code) (excess (code.drop address)) ↔
      excess (code.drop address) = (openAt code code.length).length := by
  rw [openAt_length]
  constructor
  · intro h
    exact h.unique (isGreatest_endings code)
  · intro h
    rw [h]
    exact isGreatest_endings code

end LoopScan

namespace Program

/-- A text is accepted if and only if each part at its end has at least as many loop ends as loop
starts.  If it is refused, the address that is named is the greatest one from which on the loop
starts outnumber the loop ends by as many as in no other part at the end. -/
theorem accepted_iff_endings_close (source : String) :
    ((∃ p, parse source = .ok p) ↔
      ∀ back, back <:+ Instruction.ofSource source →
        back.count .loopStart ≤ back.count .loopEnd) ∧
    ∀ fault, parse source = .error fault → ∃ address,
      fault = .unmatchedLoopStart address ∧
        IsGreatest {address | IsGreatest (excess '' {back | back <:+ Instruction.ofSource source})
          (excess ((Instruction.ofSource source).drop address))} address := by
  constructor
  · rw [exists_parse_iff, waiting_eq_nil_iff]
    refine forall₂_congr fun back _ => ?_
    rw [excess]
    omega
  · intro fault hparse
    obtain ⟨address, hlast, rfl⟩ := ofCode_eq_error_iff.1 hparse
    have hmax := excess_drop_of_getLast? hlast
    refine ⟨address, rfl, isGreatest_excess_drop_iff.2 hmax, ?_⟩
    intro other hother
    by_contra hlt
    have hless := excess_drop_lt_of_open (List.mem_of_getLast? hlast) (Nat.lt_of_not_le hlt)
    rw [isGreatest_excess_drop_iff.1 hother, hmax] at hless
    exact lt_irrefl _ hless

/-- Two loops stay open.  The loop in front of them that is closed makes no difference, and so two
parts have the greatest excess; the loop end in front of all would only lower it. -/
theorem accepted_iff_endings_close_two_open :
    (¬ ∃ p, parse "][][-[+]+[" = .ok p) ∧
      parse "][][-[+]+[" = .error (.unmatchedLoopStart 3) ∧
      excess ((Instruction.ofSource "][][-[+]+[").drop 1) =
        excess ((Instruction.ofSource "][][-[+]+[").drop 3) ∧
      IsGreatest {address |
        IsGreatest (excess '' {back | back <:+ Instruction.ofSource "][][-[+]+["})
          (excess ((Instruction.ofSource "][][-[+]+[").drop address))} 3 := by
  have hcode : Instruction.ofSource "][][-[+]+[" = [.loopEnd, .loopStart, .loopEnd, .loopStart,
      .decrement, .loopStart, .increment, .loopEnd, .increment, .loopStart] := by rfl
  have hparse : parse "][][-[+]+[" = .error (.unmatchedLoopStart 3) := by rfl
  obtain ⟨haccepted, hrefused⟩ := accepted_iff_endings_close "][][-[+]+["
  refine ⟨?_, hparse, ?_, ?_⟩
  · intro hok
    have hlast := haccepted.1 hok [.loopStart] (by rw [hcode]; decide)
    revert hlast
    decide
  · rw [hcode]
    decide
  · obtain ⟨address, haddress, hgreatest⟩ := hrefused _ hparse
    obtain rfl := Fault.unmatchedLoopStart.inj haddress
    exact hgreatest

end Program

end TapeMachine
