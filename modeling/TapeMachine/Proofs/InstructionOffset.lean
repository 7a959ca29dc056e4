import TapeMachine.Proofs.Comments
import TapeMachine.Proofs.SourcePosition

/-!
# Addresses and offsets

A program numbers its instructions, and a text numbers its characters.  Each address of an
instruction has one offset, at which the character of that instruction stands with as many
instruction characters in front of it.  So the offsets are in the order of the addresses, and every
instruction character of the text has its address, whether or not the text is accepted as a program.
-/

namespace TapeMachine

namespace Source

open Instruction

variable {source : String} {address address' offset offset' : Nat} {c : Char}

/-- How many instruction characters stand in front of an offset. -/
def rank (source : String) (offset : Nat) : Nat :=
  (significant (String.ofList (source.toList.take offset))).length

theorem length_significant (source : String) :
    (significant source).length = (ofSource source).length := by
  rw [← map_toChar_ofSource, List.length_map]

theorem rank_eq (source : String) (offset : Nat) :
    rank source offset = ((source.toList.take offset).filterMap ofChar?).length := by
  rw [rank, length_significant, ofSource, String.toList_ofList]

theorem rank_mono (source : String) (h : offset ≤ offset') :
    rank source offset ≤ rank source offset' := by
  have hle : source.toList.take offset <+: source.toList.take offset' :=
    List.take_prefix_take_left h
  rw [rank_eq, rank_eq]
  exact (hle.filterMap ofChar?).length_le

theorem rank_succ (h : source.toList[offset]? = some c) (hc : (ofChar? c).isSome) :
    rank source (offset + 1) = rank source offset + 1 := by
  obtain ⟨i, hi⟩ := Option.isSome_iff_exists.1 hc
  rw [rank_eq, rank_eq, List.take_add_one, h, Option.toList_some, List.filterMap_append,
    List.filterMap_cons_some hi, List.length_append]
  rfl

/-- An instruction character has the address that is its rank. -/
theorem offset?_rank (h : source.toList[offset]? = some c) (hc : (ofChar? c).isSome) :
    offset? source (rank source offset) = some offset := by
  obtain ⟨hlt, rfl⟩ := List.getElem?_eq_some_iff.1 h
  have hsplit : source.toList =
      source.toList.take offset ++ source.toList[offset] :: source.toList.drop (offset + 1) := by
    rw [← List.drop_eq_getElem_cons hlt, List.take_append_drop]
  have hoffset := offset?_split hsplit hc
  rwa [← rank_eq, List.length_take, Nat.min_eq_left hlt.le] at hoffset

/-- The instruction at an address is found at the offset of the address, whose rank is the
address. -/
theorem exists_offset? (h : address < (ofSource source).length) :
    ∃ offset i, offset? source address = some offset ∧ rank source offset = address ∧
      source.toList[offset]? = some (Instruction.toChar i) ∧
      (ofSource source)[address]? = some i := by
  have hi : (ofSource source)[address]? = some (ofSource source)[address] :=
    List.getElem?_eq_getElem h
  obtain ⟨before, c, after, hsource, hc, rfl⟩ := exists_split hi
  refine ⟨before.length, _, offset?_split hsource (Option.isSome_of_eq_some hc), ?_, ?_, hi⟩
  · rw [rank_eq, hsource, List.take_left]
  · rw [hsource, List.getElem?_append_right le_rfl, Nat.sub_self, List.getElem?_cons_zero,
      ofChar?_eq_some_iff.1 hc]

theorem lt_of_offset? (h : offset? source address = some offset) :
    address < (ofSource source).length := by
  refine Nat.lt_of_not_le fun hle => ?_
  rw [offset?_eq_none hle] at h
  contradiction

theorem exists_instruction_of_offset? (h : offset? source address = some offset) :
    rank source offset = address ∧ ∃ i, source.toList[offset]? = some (Instruction.toChar i) ∧
      (ofSource source)[address]? = some i := by
  obtain ⟨found, i, hfound, hrank, hchar, hcode⟩ := exists_offset? (lt_of_offset? h)
  obtain rfl : found = offset := Option.some.inj (hfound.symm.trans h)
  exact ⟨hrank, i, hchar, hcode⟩

theorem lt_of_lt_of_offset? (h : offset? source address = some offset)
    (h' : offset? source address' = some offset') (hlt : offset < offset') :
    address < address' := by
  obtain ⟨rfl, i, hchar, -⟩ := exists_instruction_of_offset? h
  obtain ⟨rfl, -⟩ := exists_instruction_of_offset? h'
  have hcode : (ofChar? i.toChar).isSome := Option.isSome_of_eq_some (ofChar?_toChar i)
  calc rank source offset
      < rank source (offset + 1) := by
        rw [rank_succ hchar hcode]
        exact Nat.lt_succ_self _
    _ ≤ rank source offset' := rank_mono source hlt

/-- Addresses and offsets of a text, whether or not it is accepted as a program.  Exactly the
addresses below the number of instruction characters have an offset.  The character there is that of
the instruction at the address, and the address counts the instruction characters in front of it.
A larger address has a larger offset, and every instruction character is at the offset of exactly
one address. -/
theorem offsets_of_addresses (source : String) :
    (∀ address, (∃ offset, offset? source address = some offset) ↔
      address < (significant source).length) ∧
    (∀ address offset, offset? source address = some offset →
      rank source offset = address ∧
      ∃ i, source.toList[offset]? = some (Instruction.toChar i) ∧
        (ofSource source)[address]? = some i ∧
        ∀ p, Program.parse source = .ok p → p.code[address]? = some i) ∧
    (∀ address address' offset offset', offset? source address = some offset →
      offset? source address' = some offset' → (address < address' ↔ offset < offset')) ∧
    ∀ offset c, source.toList[offset]? = some c →
      c ∈ ['>', '<', '+', '-', '.', ',', '[', ']'] →
        ∃! address, offset? source address = some offset := by
  refine ⟨?_, ?_, ?_, ?_⟩
  · intro address
    rw [length_significant]
    constructor
    · rintro ⟨offset, h⟩
      exact lt_of_offset? h
    · intro hlt
      obtain ⟨offset, -, h, -⟩ := exists_offset? hlt
      exact ⟨offset, h⟩
  · intro address offset h
    obtain ⟨hrank, i, hchar, hcode⟩ := exists_instruction_of_offset? h
    refine ⟨hrank, i, hchar, hcode, ?_⟩
    intro p hparse
    rw [← Array.getElem?_toList, Program.toList_code_of_parse hparse]
    exact hcode
  · intro address address' offset offset' h h'
    constructor
    · intro hlt
      rcases Nat.lt_trichotomy offset offset' with hless | rfl | hgreater
      · exact hless
      · -- the same offset has the same rank
        have hrank := (exists_instruction_of_offset? h).1
        have hrank' := (exists_instruction_of_offset? h').1
        omega
      · exact absurd (lt_of_lt_of_offset? h' h hgreater) hlt.not_gt
    · exact lt_of_lt_of_offset? h h'
  · intro offset c hchar hmem
    refine ⟨rank source offset, offset?_rank hchar (isSome_ofChar?_iff.2 hmem), ?_⟩
    intro address h
    exact (exists_instruction_of_offset? h).1.symm

/-- The text has an open loop, and a comment of more than one byte for each character. -/
theorem offsets_of_addresses_refused :
    let source := "é +\n→[ ü,"
    Program.parse source = .error (.unmatchedLoopStart 1) ∧ offset? source 1 = some 5 ∧
      offset? source 2 = some 8 ∧ rank source 5 = 1 ∧
      source.toList[5]? = some '[' ∧ (∃! address, offset? source address = some 8) ∧
      ∀ address, (∃ offset, offset? source address = some offset) ↔ address < 3 := by
  intro source
  have hparse : Program.parse source = .error (.unmatchedLoopStart 1) := by decide
  have hloop : offset? source 1 = some 5 := by decide
  have hinput : offset? source 2 = some 8 := by decide
  have hcount : (significant source).length = 3 := by decide
  obtain ⟨hbelow, hfound, -, hunique⟩ := offsets_of_addresses source
  obtain ⟨hrank, -⟩ := hfound 1 5 hloop
  rw [hcount] at hbelow
  exact ⟨hparse, hloop, hinput, hrank, by decide, hunique 8 ',' (by decide) (by decide), hbelow⟩

end Source

end TapeMachine
