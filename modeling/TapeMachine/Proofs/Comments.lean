import TapeMachine.Interpreter
import TapeMachine.Proofs.LoopTable

/-!
# Comments

Only the eight instruction characters of a source text matter.  Everything that is made of a text,
its loop table, its run and the addresses in its faults included, goes by these characters alone, so
comments may be put in or left out anywhere, also inside loops.  A program is printed as just these
characters, and the print is a source text of the same program.
-/

namespace TapeMachine

/-- The instruction characters of a text, in their order. -/
def Source.significant (source : String) : List Char :=
  source.toList.filter (· ∈ ['>', '<', '+', '-', '.', ',', '[', ']'])

namespace Instruction

theorem toChar_injective {i j : Instruction} (h : i.toChar = j.toChar) : i = j := by
  have hchar : ofChar? i.toChar = ofChar? j.toChar := congrArg ofChar? h
  rw [ofChar?_toChar, ofChar?_toChar] at hchar
  exact Option.some.inj hchar

theorem isSome_ofChar?_iff {c : Char} :
    (ofChar? c).isSome ↔ c ∈ ['>', '<', '+', '-', '.', ',', '[', ']'] := by
  constructor
  · intro h
    obtain ⟨i, hi⟩ := Option.isSome_iff_exists.1 h
    rw [ofChar?_eq_some_iff.1 hi]
    cases i <;> decide
  · intro h
    simp only [List.mem_cons, List.not_mem_nil, or_false] at h
    rcases h with rfl | rfl | rfl | rfl | rfl | rfl | rfl | rfl <;> rfl

theorem map_toChar_filterMap (text : List Char) :
    (text.filterMap ofChar?).map toChar =
      text.filter (· ∈ ['>', '<', '+', '-', '.', ',', '[', ']']) := by
  induction text with
  | nil => rfl
  | cons c text ih =>
      cases hc : ofChar? c with
      | none =>
          have hcomment : c ∉ ['>', '<', '+', '-', '.', ',', '[', ']'] := by
            rw [← isSome_ofChar?_iff, hc]
            simp
          rw [List.filterMap_cons_none hc, ih, List.filter_cons_of_neg (by simpa using hcomment)]
      | some i =>
          have hcode : c ∈ ['>', '<', '+', '-', '.', ',', '[', ']'] := by
            rw [← isSome_ofChar?_iff, hc]
            rfl
          rw [List.filterMap_cons_some hc, List.map_cons, ih,
            List.filter_cons_of_pos (by simpa using hcode), ← ofChar?_eq_some_iff.1 hc]

theorem map_toChar_ofSource (source : String) :
    (ofSource source).map toChar = Source.significant source :=
  map_toChar_filterMap source.toList

theorem ofSource_ofList_map_toChar (code : List Instruction) :
    ofSource (String.ofList (code.map toChar)) = code := by
  rw [ofSource, String.toList_ofList, List.filterMap_map]
  have hspelling : ofChar? ∘ toChar = some := funext ofChar?_toChar
  rw [hspelling, List.filterMap_some]

theorem ofSource_eq_of_significant {source source' : String}
    (h : Source.significant source = Source.significant source') :
    ofSource source = ofSource source' := by
  rw [← map_toChar_ofSource, ← map_toChar_ofSource] at h
  exact List.map_injective_iff.2 (fun _ _ => toChar_injective) h

end Instruction

namespace Program

variable {source : String} {p : Program}

theorem parse_ok_or_error (source : String) :
    (∃ p, parse source = .ok p) ∨
      ∃ address, parse source = .error (.unmatchedLoopStart address) := by
  cases h : parse source with
  | ok p => exact .inl ⟨p, rfl⟩
  | error fault =>
      obtain ⟨address, -, rfl⟩ := ofCode_eq_error_iff.1 h
      exact .inr ⟨address, rfl⟩

theorem render_of_parse (h : parse source = .ok p) :
    p.render = String.ofList (Source.significant source) := by
  rw [render, toList_code_of_parse h, Instruction.map_toChar_ofSource]

theorem parse_render (h : parse source = .ok p) : parse p.render = .ok p := by
  rw [parse, render, Instruction.ofSource_ofList_map_toChar]
  exact paired_of_parse h

end Program

/-- Two source texts with the same instruction characters are accepted as the same program or
refused at the same address, and lead to the same outcome with every configuration and whatever the
streams do.  An accepted program is printed as the instruction characters of its source, and the
print is accepted as the same program. -/
theorem interpret_without_comments {source source' : String}
    (h : Source.significant source = Source.significant source') :
    ((∃ p, Program.parse source = .ok p ∧ Program.parse source' = .ok p) ∨
      ∃ address, Program.parse source = .error (.unmatchedLoopStart address) ∧
        Program.parse source' = .error (.unmatchedLoopStart address)) ∧
    (∀ fuel config streams,
      interpret fuel source config streams = interpret fuel source' config streams) ∧
    ∀ p, Program.parse source = .ok p →
      p.render = String.ofList (Source.significant source) ∧ Program.parse p.render = .ok p := by
  have hparse : Program.parse source = Program.parse source' := by
    rw [Program.parse, Program.parse, Instruction.ofSource_eq_of_significant h]
  refine ⟨?_, ?_, ?_⟩
  · rcases Program.parse_ok_or_error source with ⟨p, hp⟩ | ⟨address, haddress⟩
    · exact .inl ⟨p, hp, hparse.symm.trans hp⟩
    · exact .inr ⟨address, haddress, hparse.symm.trans haddress⟩
  · intro fuel config streams
    rw [interpret, interpret, hparse]
  · intro p hp
    exact ⟨Program.render_of_parse hp, Program.parse_render hp⟩

/-- The comments stand in front of, inside and behind a loop, and the run ends with a fault. -/
theorem interpret_without_comments_in_loop :
    let plain := ",[.,]<"
    let commented := "lies: ,\n solange ≠ 0 [ gib aus . und lies , ]\r\t zurück <\n"
    let config : Config := { tapeLength := ⟨2, by decide, by decide⟩ }
    let streams : Streams := .ofInput [7, 9]
    Source.significant plain = Source.significant commented ∧
      (∃ p, Program.parse plain = .ok p ∧ Program.parse commented = .ok p ∧ p.render = plain) ∧
      ∃ o, interpret 20 plain config streams = some o ∧
        interpret 20 commented config streams = some o ∧ o.output = [7, 9] ∧
        o.result = .error (.pointerOutOfRange 5 (-1)) := by
  intro plain commented config streams
  have hsame : Source.significant plain = Source.significant commented := by decide
  obtain ⟨hparse, hrun, hrender⟩ := interpret_without_comments hsame
  let o : Outcome := (interpret 20 plain config streams).get (by decide)
  have ho : interpret 20 plain config streams = some o := (Option.some_get _).symm
  have hshown : String.ofList (Source.significant plain) = plain := by decide
  refine ⟨hsame, ?_, o, ho, (hrun 20 config streams).symm.trans ho, by decide, by decide⟩
  rcases hparse with ⟨p, hp, hp'⟩ | ⟨address, haddress, -⟩
  · exact ⟨p, hp, hp', (hrender p hp).1.trans hshown⟩
  · have hok : (Program.parse plain).isOk := by decide
    rw [haddress] at hok
    contradiction

end TapeMachine
