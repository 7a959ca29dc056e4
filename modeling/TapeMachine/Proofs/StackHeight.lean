import Mathlib.Data.List.Infix
import TapeMachine.Proofs.DepthScan

/-!
# How many loops are open

The number of loops that are open at the end of a text can be counted from its end without a stack:
it is the greatest number by which the loop starts outnumber the loop ends in some part at the end
of the text.  A loop end that closes nothing begins the count afresh, since the empty part counts
too.
-/

namespace TapeMachine

/-- By how many the loop starts outnumber the loop ends. -/
def excess (code : List Instruction) : Int :=
  (code.count .loopStart : Int) - code.count .loopEnd

namespace LoopScan

open DepthScan

variable {code : List Instruction} {i : Instruction} {address start : Nat}

theorem excess_append (code more : List Instruction) :
    excess (code ++ more) = excess code + excess more := by
  simp only [excess, List.count_append]
  omega

theorem excess_singleton (i : Instruction) : excess [i] = nesting i := by
  cases i <;> rfl

theorem excess_eq_sum (code : List Instruction) : excess code = (code.map nesting).sum := by
  induction code with
  | nil => rfl
  | cons i code ih =>
      rw [← List.singleton_append, excess_append, excess_singleton, ih, List.map_append,
        List.sum_append, List.map_singleton, List.sum_singleton]

theorem depthBehind_eq (code : List Instruction) (start address : Nat) :
    depthBehind code start address = 1 + excess ((code.take (address + 1)).drop (start + 1)) := by
  rw [depthBehind, excess_eq_sum]

/-- The depth counted from a loop start is the excess from there. -/
theorem depthBehind_eq_excess (hstart : code[start]? = some .loopStart) (hle : start ≤ address) :
    depthBehind code start address = excess ((code.take (address + 1)).drop start) := by
  have hread : (code.take (address + 1))[start]? = some .loopStart := by
    rwa [List.getElem?_take_of_lt (Nat.lt_succ_of_le hle)]
  obtain ⟨hlt, hget⟩ := List.getElem?_eq_some_iff.1 hread
  rw [depthBehind_eq, List.drop_eq_getElem_cons hlt, hget, ← List.singleton_append, excess_append]
  rfl

theorem excess_take_succ (h : code[address]? = some i) :
    excess (code.take (address + 1)) = excess (code.take address) + nesting i := by
  rw [List.take_add_one, h, Option.toList_some, excess_append, excess_singleton]

theorem excess_drop (hle : start ≤ address) (hlength : start ≤ code.length) :
    excess (code.drop start) =
      excess ((code.take address).drop start) + excess (code.drop address) := by
  have hfront : start ≤ (code.take address).length := by
    rw [List.length_take]
    exact le_min hle hlength
  rw [← excess_append, ← List.drop_append_of_le_length hfront, List.take_append_drop]

/-- While a loop is open, its start is not made up for. -/
theorem one_le_excess_of_open (hopen : start ∈ openAt code address)
    (hle : address ≤ code.length) : 1 ≤ excess ((code.take address).drop start) := by
  obtain ⟨hlt, hstart⟩ := mem_openAt hopen
  obtain ⟨last, rfl⟩ := Nat.exists_eq_succ_of_ne_zero (Nat.ne_zero_of_lt hlt)
  rw [← depthBehind_eq_excess hstart (Nat.le_of_lt_succ hlt)]
  exact one_le_depthBehind hstart (Nat.le_of_lt_succ hlt) hle hopen

/-- The excesses of the parts at the end of the code, the empty part and the whole included. -/
def endings (code : List Instruction) : Set Int :=
  excess '' {back | back <:+ code}

theorem mem_endings_concat {x : Int} :
    x ∈ endings (code ++ [i]) ↔ x = 0 ∨ ∃ y ∈ endings code, x = y + nesting i := by
  constructor
  · rintro ⟨back, hback, rfl⟩
    rcases List.suffix_concat_iff.1 hback with rfl | ⟨rest, rfl, hrest⟩
    · exact .inl rfl
    · refine .inr ⟨excess rest, ⟨rest, hrest, rfl⟩, ?_⟩
      rw [excess_append, excess_singleton]
  · rintro (rfl | ⟨-, ⟨rest, hrest, rfl⟩, rfl⟩)
    · exact ⟨[], List.nil_suffix, rfl⟩
    · refine ⟨rest ++ [i], ?_, ?_⟩
      · exact List.suffix_concat_iff.2 (.inr ⟨rest, rfl, hrest⟩)
      · rw [excess_append, excess_singleton]

theorem length_waiting_concat (code : List Instruction) (i : Instruction) :
    ((ofCode (code ++ [i])).waiting.length : Int) =
      max 0 ((ofCode code).waiting.length + nesting i) := by
  rw [ofCode_concat, waiting_push]
  cases i <;> simp only [openBehind, nesting, List.length_cons, List.length_tail] <;> omega

/-- The number of open loops is the greatest excess of a part at the end. -/
theorem isGreatest_endings (code : List Instruction) :
    IsGreatest (endings code) (ofCode code).waiting.length := by
  induction code using List.reverseRecOn with
  | nil =>
      refine ⟨⟨[], List.nil_suffix, rfl⟩, ?_⟩
      rintro - ⟨back, hback, rfl⟩
      rw [List.suffix_nil.1 hback]
      exact le_rfl
  | append_singleton code i ih =>
      rw [length_waiting_concat]
      constructor
      · rw [mem_endings_concat]
        rcases le_total ((ofCode code).waiting.length + nesting i) 0 with hle | hle
        · exact .inl (max_eq_left hle)
        · exact .inr ⟨_, ih.1, max_eq_right hle⟩
      · intro x hx
        rcases mem_endings_concat.1 hx with rfl | ⟨y, hy, rfl⟩
        · exact le_max_left _ _
        · exact (Int.add_le_add_right (ih.2 hy) _).trans (le_max_right _ _)

/-- Nothing is open at the end if each part there makes up for its own loop starts. -/
theorem waiting_eq_nil_iff (code : List Instruction) :
    (ofCode code).waiting = [] ↔ ∀ back, back <:+ code → excess back ≤ 0 := by
  have hgreatest := isGreatest_endings code
  constructor
  · intro hnil back hback
    rw [hnil] at hgreatest
    exact hgreatest.2 ⟨back, hback, rfl⟩
  · intro hall
    obtain ⟨back, hback, hlength⟩ := hgreatest.1
    have hle := hall back hback
    apply List.length_eq_zero_iff.1
    omega

/-- Nothing is open at an address if the excess has never been lower on the way there. -/
theorem openAt_eq_nil_iff :
    openAt code address = [] ↔
      ∀ before ≤ address, excess (code.take address) ≤ excess (code.take before) := by
  rw [openAt, waiting_eq_nil_iff]
  have hsplit (front back : List Instruction) (h : front ++ back = code.take address) :
      excess back ≤ 0 ↔ excess (code.take address) ≤ excess front := by
    rw [← h, excess_append]
    omega
  constructor
  · intro hall before hle
    have hwhole : code.take before ++ (code.take address).drop before = code.take address := by
      have htake : (code.take address).take before = code.take before := by
        rw [List.take_take, min_eq_left hle]
      rw [← htake, List.take_append_drop]
    exact (hsplit _ _ hwhole).1 (hall _ (List.drop_suffix _ _))
  · rintro hall back ⟨front, hfront⟩
    apply (hsplit front back hfront).2
    have hprefix : front <+: code.take address := ⟨back, hfront⟩
    rw [List.prefix_take_iff] at hprefix
    obtain ⟨hcode, hlength⟩ := hprefix
    rw [List.prefix_iff_eq_take.1 hcode]
    exact hall _ hlength

end LoopScan

end TapeMachine
