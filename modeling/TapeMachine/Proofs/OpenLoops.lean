import Mathlib.Data.List.Sort
import TapeMachine.Program

/-!
# Open loops

While the loop table is filled, the scan keeps the loop starts that still wait for their partner.
`LoopScan.openAt` is that stack in front of each address.  The table is determined by it: the
partner of a loop start is the loop end that is met while the start is on top.  In a text that was
accepted, the loops open in front of an address are those that begin before it and end at it or
behind it, and leaving a loop or going back into it restores the stack found there before.
-/

namespace TapeMachine

namespace LoopScan

/-- The loops open in front of an address, the innermost first. -/
def openAt (code : List Instruction) (address : Nat) : List Nat :=
  (ofCode (code.take address)).waiting

/-- What an instruction makes of the loops open in front of it. -/
def openBehind (loops : List Nat) (address : Nat) : Instruction → List Nat
  | .loopStart => address :: loops
  | .loopEnd => loops.tail
  | _ => loops

theorem waiting_push (s : LoopScan) (i : Instruction) :
    (s.push i).waiting = openBehind s.waiting s.jumps.size i := by
  obtain ⟨waiting, jumps⟩ := s
  cases i <;> cases waiting <;> rfl

@[simp] theorem openAt_zero (code : List Instruction) : openAt code 0 = [] := rfl

theorem openAt_length (code : List Instruction) :
    openAt code code.length = (ofCode code).waiting := by
  rw [openAt, List.take_length]

theorem openAt_succ {code : List Instruction} {address : Nat} {i : Instruction}
    (h : code[address]? = some i) :
    openAt code (address + 1) = openBehind (openAt code address) address i := by
  have hlt : address < code.length := (List.getElem?_eq_some_iff.1 h).1
  rw [openAt, List.take_add_one, h, Option.toList_some, ofCode_concat, waiting_push,
    size_jumps_ofCode, List.length_take, Nat.min_eq_left hlt.le]
  rfl

theorem openAt_succ_of_length_le {code : List Instruction} {address : Nat}
    (h : code.length ≤ address) : openAt code (address + 1) = openAt code address := by
  rw [openAt, openAt, List.take_of_length_le h, List.take_of_length_le (h.trans (Nat.le_succ _))]

theorem openAt_succ_cases (code : List Instruction) (address : Nat) :
    (code[address]? = some .loopStart ∧
      openAt code (address + 1) = address :: openAt code address) ∨
    (code[address]? = some .loopEnd ∧
      openAt code (address + 1) = (openAt code address).tail) ∨
    openAt code (address + 1) = openAt code address := by
  cases hi : code[address]? with
  | none => exact .inr (.inr (openAt_succ_of_length_le (List.getElem?_eq_none_iff.1 hi)))
  | some i =>
      have hsucc := openAt_succ hi
      cases i with
      | loopStart => exact .inl ⟨rfl, hsucc⟩
      | loopEnd => exact .inr (.inl ⟨rfl, hsucc⟩)
      | _ => exact .inr (.inr hsucc)

theorem mem_openAt_succ {code : List Instruction} {start : Nat}
    (h : code[start]? = some .loopStart) : start ∈ openAt code (start + 1) := by
  rw [openAt_succ h]
  exact List.mem_cons_self

theorem openAt_append {code : List Instruction} (more : List Instruction) {address : Nat}
    (h : address ≤ code.length) : openAt (code ++ more) address = openAt code address := by
  rw [openAt, openAt, List.take_append_of_le_length h]

theorem mem_openAt {code : List Instruction} {address start : Nat}
    (h : start ∈ openAt code address) :
    start < address ∧ code[start]? = some .loopStart := by
  induction address with
  | zero => simp at h
  | succ address ih =>
      have hold (hmem : start ∈ openAt code address) :
          start < address + 1 ∧ code[start]? = some .loopStart :=
        ⟨(ih hmem).1.trans (Nat.lt_succ_self _), (ih hmem).2⟩
      rcases openAt_succ_cases code address with ⟨hi, hstack⟩ | ⟨-, hstack⟩ | hstack <;>
        rw [hstack] at h
      · rcases List.mem_cons.1 h with rfl | h
        · exact ⟨Nat.lt_succ_self _, hi⟩
        · exact hold h
      · exact hold (List.mem_of_mem_tail h)
      · exact hold h

/-- Only the loop start itself puts a loop on the stack, so a loop that is open was open all the
way from its start. -/
theorem mem_openAt_of_le {code : List Instruction} {address later start : Nat}
    (h : start ∈ openAt code later) (hstart : start < address) (hle : address ≤ later) :
    start ∈ openAt code address := by
  induction later, hle using Nat.le_induction with
  | base => exact h
  | succ later hle ih =>
      apply ih
      rcases openAt_succ_cases code later with ⟨-, hstack⟩ | ⟨-, hstack⟩ | hstack <;>
        rw [hstack] at h
      · exact (List.mem_cons.1 h).resolve_left (hstart.trans_le hle).ne
      · exact List.mem_of_mem_tail h
      · exact h

theorem pairwise_openAt (code : List Instruction) (address : Nat) :
    (openAt code address).Pairwise (· > ·) := by
  induction address with
  | zero => exact List.Pairwise.nil
  | succ address ih =>
      rcases openAt_succ_cases code address with ⟨-, hstack⟩ | ⟨-, hstack⟩ | hstack <;>
        rw [hstack]
      · exact List.pairwise_cons.2 ⟨fun start h => (mem_openAt h).1, ih⟩
      · exact ih.tail
      · exact ih

theorem notMem_of_openAt_eq_cons {code : List Instruction} {address start : Nat}
    {outer : List Nat} (h : openAt code address = start :: outer) : start ∉ outer := by
  intro hmem
  have hsorted := h ▸ pairwise_openAt code address
  exact lt_irrefl _ ((List.pairwise_cons.1 hsorted).1 start hmem)

/-- Under an open loop lie, undisturbed, the loops that were open in front of it. -/
theorem suffix_openAt {code : List Instruction} {address start : Nat}
    (h : start ∈ openAt code address) : start :: openAt code start <:+ openAt code address := by
  induction address with
  | zero => simp at h
  | succ address ih =>
      rcases openAt_succ_cases code address with ⟨-, hstack⟩ | ⟨-, hstack⟩ | hstack <;>
        rw [hstack] at h ⊢
      · rcases List.mem_cons.1 h with rfl | h
        · exact List.suffix_rfl
        · exact (ih h).trans (List.suffix_cons _ _)
      · cases hopen : openAt code address with
        | nil => simp [hopen] at h
        | cons top outer =>
            have htail : start ∈ outer := by simpa [hopen] using h
            have hsuffix := ih (hopen ▸ List.mem_cons_of_mem top htail)
            rw [hopen] at hsuffix
            rcases List.suffix_cons_iff.1 hsuffix with heq | hsuffix
            · obtain ⟨rfl, -⟩ := List.cons.inj heq
              exact absurd htail (notMem_of_openAt_eq_cons hopen)
            · exact hsuffix
      · exact ih h

/-- What is left when the innermost loop is closed is what was open in front of that loop. -/
theorem outer_of_openAt_eq_cons {code : List Instruction} {address start : Nat}
    {outer : List Nat} (h : openAt code address = start :: outer) :
    outer = openAt code start := by
  have hsuffix := suffix_openAt (h ▸ List.mem_cons_self : start ∈ openAt code address)
  rw [h] at hsuffix
  rcases List.suffix_cons_iff.1 hsuffix with heq | hsuffix
  · exact (List.cons.inj heq).2.symm
  · exact absurd (hsuffix.subset List.mem_cons_self) (notMem_of_openAt_eq_cons h)

/-- A loop that is open and later is not was closed in between, while it was the innermost. -/
theorem exists_loopEnd {code : List Instruction} {address later start : Nat}
    (hopen : start ∈ openAt code address) (hclosed : start ∉ openAt code later)
    (hle : address ≤ later) :
    ∃ e, address ≤ e ∧ e < later ∧ code[e]? = some .loopEnd ∧
      (openAt code e).head? = some start := by
  induction later, hle using Nat.le_induction with
  | base => exact absurd hopen hclosed
  | succ later hle ih =>
      by_cases hmem : start ∈ openAt code later
      · refine ⟨later, hle, Nat.lt_succ_self _, ?_⟩
        rcases openAt_succ_cases code later with ⟨-, hstack⟩ | ⟨hi, hstack⟩ | hstack <;>
          rw [hstack] at hclosed
        · exact absurd (List.mem_cons_of_mem _ hmem) hclosed
        · cases hopen : openAt code later with
          | nil => simp [hopen] at hmem
          | cons top outer =>
              have houter : start ∉ outer := by simpa [hopen] using hclosed
              have htop : start = top := by simpa [hopen, houter] using hmem
              exact ⟨hi, by rw [htop, List.head?_cons]⟩
        · exact absurd hmem hclosed
      · obtain ⟨e, hae, hel, he⟩ := ih hmem
        exact ⟨e, hae, hel.trans (Nat.lt_succ_self _), he⟩

end LoopScan

end TapeMachine
