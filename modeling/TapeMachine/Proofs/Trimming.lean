import Mathlib.Data.List.DropRight
import Mathlib.Data.List.Induction
import TapeMachine.Text.Blank
import TapeMachine.Text.Line

/-!
# Trimmed texts

Trimming takes off all blanks in front of a text and behind it, and nothing else: neither adding
blanks at an end nor taking some off there changes the trimmed text, and a text that begins and ends
with other characters stays as it is.
-/

namespace TapeMachine

namespace Text

section

variable {p : Char → Bool}

theorem dropEndWhile_eq_rdropWhile (p : Char → Bool) (text : List Char) :
    dropEndWhile p text = text.rdropWhile p := rfl

theorem dropEndWhile_append_cons {c : Char} (hc : ¬ p c) (before after : List Char) :
    dropEndWhile p (before ++ c :: after) = before ++ c :: dropEndWhile p after := by
  simp only [dropEndWhile_eq_rdropWhile]
  induction after using List.reverseRecOn with
  | nil => rw [List.rdropWhile_concat_neg _ _ _ hc, List.rdropWhile_nil]
  | append_singleton after d ih =>
      rw [← List.cons_append, ← List.append_assoc, List.rdropWhile_concat,
        List.rdropWhile_concat]
      split
      · exact ih
      · rw [List.append_assoc, List.cons_append]

theorem dropEndWhile_append_of_forall {tail : List Char} (h : ∀ c ∈ tail, p c)
    (text : List Char) : dropEndWhile p (text ++ tail) = dropEndWhile p text := by
  simp only [dropEndWhile_eq_rdropWhile]
  induction tail using List.reverseRecOn with
  | nil => rw [List.append_nil]
  | append_singleton tail c ih =>
      rw [← List.append_assoc, List.rdropWhile_concat_pos _ _ _ (h c (by simp))]
      exact ih fun d hd => h d (by simp [hd])

/-- Only carriage returns are lost when a line is taken out of its text. -/
theorem exists_returns (line : List Char) :
    ∃ returns, (∀ c ∈ returns, c = '\r') ∧ line = dropReturn line ++ returns := by
  unfold dropReturn
  split
  · next hlast =>
      obtain ⟨rest, rfl⟩ := List.getLast?_eq_some_iff.1 hlast
      exact ⟨['\r'], by simp, by rw [List.dropLast_concat]⟩
  · exact ⟨[], by simp, by rw [List.append_nil]⟩

theorem dropEndWhile_dropReturn (h : p '\r') (line : List Char) :
    dropEndWhile p (dropReturn line) = dropEndWhile p line := by
  obtain ⟨returns, hreturns, hline⟩ := exists_returns line
  have hdrop : ∀ c ∈ returns, p c := by
    intro c hc
    rwa [hreturns c hc]
  conv_rhs => rw [hline, dropEndWhile_append_of_forall hdrop]

end

/-- Nothing but blanks. -/
def Blank (text : List Char) : Prop :=
  ∀ c ∈ text, isBlank c

instance (text : List Char) : Decidable (Blank text) :=
  decidable_of_iff (text.all isBlank) List.all_eq_true

section

variable {blanks : List Char}

theorem trim_blank_append (h : Blank blanks) (text : List Char) :
    trim (blanks ++ text) = trim text := by
  rw [trim, trim, List.dropWhile_append_of_pos h]

theorem trim_append_blank (h : Blank blanks) (text : List Char) :
    trim (text ++ blanks) = trim text := by
  rw [trim, trim, List.dropWhile_append]
  split
  · next hall =>
      -- all of the text is blank, so nothing is left on either side
      rw [List.isEmpty_iff.1 hall, List.dropWhile_eq_nil_iff.2 h]
  · exact dropEndWhile_append_of_forall h _

theorem trim_dropEndWhile (text : List Char) : trim (dropEndWhile isBlank text) = trim text := by
  have hblank : Blank (text.rtakeWhile isBlank) := fun c hc => List.mem_rtakeWhile_imp hc
  calc
    trim (dropEndWhile isBlank text)
        = trim (dropEndWhile isBlank text ++ text.rtakeWhile isBlank) :=
      (trim_append_blank hblank _).symm
    _ = trim text := by
      rw [dropEndWhile_eq_rdropWhile, List.rdropWhile_append_rtakeWhile]

theorem trim_cons {c : Char} (hc : ¬ isBlank c) (text : List Char) :
    trim (c :: text) = dropEndWhile isBlank (c :: text) := by
  rw [trim, List.dropWhile_cons_of_neg hc]

/-- Trimming takes nothing off in front of a character that is not blank, if the text begins with
one. -/
theorem trim_cons_append_cons {c d : Char} (hc : ¬ isBlank c) (hd : ¬ isBlank d)
    (between after : List Char) :
    trim (c :: between ++ d :: after) = c :: between ++ d :: dropEndWhile isBlank after := by
  rw [List.cons_append, trim_cons hc, ← List.cons_append, dropEndWhile_append_cons hd]

theorem trim_enclosed {c d : Char} (hc : ¬ isBlank c) (hd : ¬ isBlank d) (inner : List Char) :
    trim (c :: inner ++ [d]) = c :: inner ++ [d] :=
  trim_cons_append_cons hc hd inner []

end

end Text

end TapeMachine
