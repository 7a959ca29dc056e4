import Mathlib.Data.List.TakeWhile
import TapeMachine.Settings.File

/-!
# Lines of settings files

What a line of a settings file is, said about the line as a whole: where its comment begins, when it
is a header and when it is an assignment.  `Line.ofText` finds out just this.
-/

namespace TapeMachine.Settings.File

/-- The place of the first number sign with an even number of double quotes in front of it. -/
def commentStart? (text : List Char) : Option Nat :=
  (List.range text.length).find? fun i =>
    text[i]? = some '#' && (text.take i).count '"' % 2 = 0

/-- What a line says, without its comment and the blanks around. -/
def payload (line : List Char) : List Char :=
  match commentStart? line with
  | some i => Text.trim (line.take i)
  | none => Text.trim line

/-- The line is the header of a section with this name. -/
def IsHeader (line name : List Char) : Prop :=
  ∃ inner, payload line = '[' :: inner ++ [']'] ∧ Text.trim inner = name

/-- One enclosing pair of double quotes, if there is one, is not part of the value. -/
def Unquotes (text value : List Char) : Prop :=
  text = '"' :: value ++ ['"'] ∨ value = text ∧ ∀ inner, text ≠ '"' :: inner ++ ['"']

/-- The line is no header and has an equals sign; the first one stands between key and value. -/
def IsAssignment (line key value : List Char) : Prop :=
  (∀ name, ¬ IsHeader line name) ∧
    ∃ before after, payload line = before ++ '=' :: after ∧ '=' ∉ before ∧
      Text.trim before = key ∧ Unquotes (Text.trim after) value

/-- With some quotes passed before, the comment begins where they and the quotes passed since then
are even in number. -/
theorem stripCommentFrom_eq (quotes : Nat) (kept rest : List Char) :
    stripCommentFrom (quotes % 2 = 1) kept rest = kept.reverse ++
      match (List.range rest.length).find? fun i =>
        rest[i]? = some '#' && (quotes + (rest.take i).count '"') % 2 = 0 with
      | some i => rest.take i
      | none => rest := by
  induction rest generalizing quotes kept with
  | nil => simp [stripCommentFrom]
  | cons c rest ih =>
      rw [stripCommentFrom, List.length_cons, List.range_succ_eq_map, List.find?_cons,
        List.find?_map]
      by_cases hc : c = '#' ∧ quotes % 2 = 0
      · simp [hc]
      · have hstop : ¬ (c = '#' && !decide (quotes % 2 = 1)) = true := by
          simpa using hc
        have hfirst : ((c :: rest)[0]? = some '#' &&
            (quotes + ((c :: rest).take 0).count '"') % 2 = 0) = false := by
          rcases not_and_or.1 hc with hc | hc <;> simp [hc]
        have hnext : (if c = '"' then !decide (quotes % 2 = 1) else decide (quotes % 2 = 1)) =
            decide ((quotes + if c = '"' then 1 else 0) % 2 = 1) := by
          split
          · rw [← decide_not, decide_eq_decide]
            omega
          · rfl
        have hlater : ((fun i => (c :: rest)[i]? = some '#' &&
              (quotes + ((c :: rest).take i).count '"') % 2 = 0) ∘ Nat.succ) =
            fun i => rest[i]? = some '#' &&
              ((quotes + if c = '"' then 1 else 0) + (rest.take i).count '"') % 2 = 0 := by
          funext i
          have hcount : quotes + ((c :: rest).take (i + 1)).count '"' =
              (quotes + if c = '"' then 1 else 0) + (rest.take i).count '"' := by
            rw [List.take_succ_cons, List.count_cons]
            simp only [beq_iff_eq]
            omega
          simp only [Function.comp_apply, hcount, List.getElem?_cons_succ]
        rw [if_neg hstop, hnext, ih, hfirst, hlater]
        cases (List.range rest.length).find? _ <;> simp

theorem trim_stripComment (line : List Char) : Text.trim (stripComment line) = payload line := by
  have hstrip := stripCommentFrom_eq 0 [] line
  simp only [Nat.zero_add, List.reverse_nil, List.nil_append] at hstrip
  rw [stripComment, payload, commentStart?]
  change Text.trim (stripCommentFrom (0 % 2 = 1) [] line) = _
  rw [hstrip]
  split <;> rfl

/-- A text of two characters at least, of which the first and the last are known. -/
theorem enclosed_iff {text inner : List Char} {first last : Char} :
    text = first :: inner ++ [last] ↔
      2 ≤ text.length ∧ text.head? = some first ∧ text.getLast? = some last ∧
        inner = (text.drop 1).dropLast := by
  constructor
  · rintro rfl
    exact ⟨by simp, rfl, List.getLast?_concat, by simp⟩
  · rintro ⟨hlength, hfirst, hlast, rfl⟩
    obtain ⟨rest, rfl⟩ : ∃ rest, text = first :: rest := by
      cases text with
      | nil => contradiction
      | cons c rest => exact ⟨rest, by simpa using hfirst⟩
    have hne : rest ≠ [] := by
      rintro rfl
      simp at hlength
    rw [List.getLast?_cons, List.getLast?_eq_some_getLast hne, Option.getD_some,
      Option.some.injEq] at hlast
    rw [← hlast, List.drop_one, List.tail_cons, List.cons_append, List.dropLast_concat_getLast hne]

theorem unquotes_iff {text value : List Char} : Unquotes text value ↔ value = unquote text := by
  rw [Unquotes, unquote]
  simp only [Bool.and_eq_true, decide_eq_true_eq, and_assoc]
  split
  · next hquoted =>
      have htext := enclosed_iff.2 ⟨hquoted.1, hquoted.2.1, hquoted.2.2, rfl⟩
      constructor
      · rintro (hvalue | ⟨-, hne⟩)
        · exact (enclosed_iff.1 hvalue).2.2.2
        · exact (hne _ htext).elim
      · rintro rfl
        exact .inl htext
  · next hplain =>
      have hne (inner : List Char) : text ≠ '"' :: inner ++ ['"'] := by
        intro htext
        obtain ⟨hlength, hfirst, hlast, -⟩ := enclosed_iff.1 htext
        exact hplain ⟨hlength, hfirst, hlast⟩
      constructor
      · rintro (hvalue | ⟨rfl, -⟩)
        · exact (hne value hvalue).elim
        · rfl
      · rintro rfl
        exact .inr ⟨rfl, hne⟩

theorem isHeader_iff {line name : List Char} :
    IsHeader line name ↔
      ((payload line).head? = some '[' ∧ (payload line).getLast? = some ']') ∧
        Text.trim ((payload line).drop 1).dropLast = name := by
  constructor
  · rintro ⟨inner, hline, rfl⟩
    obtain ⟨-, hfirst, hlast, rfl⟩ := enclosed_iff.1 hline
    exact ⟨⟨hfirst, hlast⟩, rfl⟩
  · rintro ⟨⟨hfirst, hlast⟩, rfl⟩
    refine ⟨_, enclosed_iff.2 ⟨?_, hfirst, hlast, rfl⟩, rfl⟩
    -- one bracket alone is not both of them
    match hline : payload line with
    | [] => simp [hline] at hfirst
    | [c] => simp_all
    | _ :: _ :: _ => simp

theorem ofText_eq_header_iff {line name : List Char} :
    Line.ofText line = .header name ↔ IsHeader line name := by
  rw [Line.ofText, trim_stripComment, Line.classify, isHeader_iff]
  simp only [Bool.and_eq_true, decide_eq_true_eq]
  split
  · next h => simp [h]
  · next h =>
      simp only [h, false_and, iff_false]
      split <;> simp

/-- The first equals sign of a text, with what is before and behind it. -/
theorem split_iff {text before after : List Char} :
    text = before ++ '=' :: after ∧ '=' ∉ before ↔
      text.takeWhile (· ≠ '=') = before ∧ text.dropWhile (· ≠ '=') = '=' :: after := by
  constructor
  · rintro ⟨rfl, hbefore⟩
    have hne (c : Char) (hc : c ∈ before) : decide (c ≠ '=') = true := by
      rw [decide_eq_true_eq]
      rintro rfl
      exact hbefore hc
    rw [List.takeWhile_append_of_pos hne, List.dropWhile_append_of_pos hne]
    simp
  · rintro ⟨rfl, hafter⟩
    refine ⟨?_, ?_⟩
    · rw [← hafter, List.takeWhile_append_dropWhile]
    · intro hmem
      simpa using List.mem_takeWhile_imp hmem

theorem ofText_eq_assignment_iff {line key value : List Char} :
    Line.ofText line = .assignment key value ↔ IsAssignment line key value := by
  rw [Line.ofText, trim_stripComment, Line.classify, IsAssignment]
  simp only [isHeader_iff, Bool.and_eq_true, decide_eq_true_eq, ← and_assoc, split_iff]
  split
  · next h => simp [h]
  · next h =>
      simp only [h, false_and, not_false_eq_true, implies_true, true_and, and_assoc]
      have hhead := List.head?_dropWhile_not (fun c => decide (c ≠ '=')) (payload line)
      split
      · next hnone =>
          constructor
          · intro hother
            cases hother
          · rintro ⟨-, after, -, hafter, -⟩
            rw [hnone] at hafter
            cases hafter
      · next c after hsome =>
          rw [hsome] at hhead
          obtain rfl : c = '=' := by simpa using hhead
          constructor
          · intro hline
            obtain ⟨rfl, rfl⟩ := Line.assignment.inj hline
            exact ⟨_, after, rfl, hsome, rfl, unquotes_iff.2 rfl⟩
          · rintro ⟨-, after', rfl, hafter, rfl, hvalue⟩
            rw [hsome] at hafter
            obtain rfl := (List.cons.inj hafter).2
            rw [unquotes_iff.1 hvalue]

end TapeMachine.Settings.File
