import Mathlib.Data.List.DropRight
import Mathlib.Data.List.Induction
import TapeMachine.Text.Line

/-!
# Pieces and lines of a text

Every place of a text lies in the piece that has as many others in front of it as there are newlines
in front of the place.  If that piece is not empty, it is found again among the lines of the text,
possibly without the carriage return at its end.
-/

namespace TapeMachine

namespace Text

/-- What was read of the line that a text breaks off in. -/
def openLine (before : List Char) : List Char :=
  before.rtakeWhile (· ≠ '\n')

theorem openLine_concat_of_ne (before : List Char) {c : Char} (hc : c ≠ '\n') :
    openLine (before ++ [c]) = openLine before ++ [c] := by
  rw [openLine, List.rtakeWhile_concat, if_pos (by simpa using hc)]
  rfl

theorem openLine_concat_newline (before : List Char) : openLine (before ++ ['\n']) = [] := by
  rw [openLine, List.rtakeWhile_concat, if_neg (by simp)]

theorem newline_notMem_openLine (before : List Char) : '\n' ∉ openLine before := by
  intro hmem
  have hne := List.mem_rtakeWhile_imp hmem
  simp at hne

theorem newline_notMem_takeWhile (text : List Char) : '\n' ∉ text.takeWhile (· ≠ '\n') := by
  intro hmem
  have hne := List.mem_takeWhile_imp hmem
  simp at hne

/-- The pieces of a text as one list. -/
def allPieces (text : List Char) : List (List Char) :=
  (pieces text).1 :: (pieces text).2

theorem allPieces_append_newline (a b : List Char) :
    allPieces (a ++ '\n' :: b) = allPieces a ++ allPieces b := by
  rw [allPieces, pieces_append_newline]
  rfl

theorem pieces_cons_of_ne {c : Char} (hc : c ≠ '\n') (text : List Char) :
    pieces (c :: text) = (c :: (pieces text).1, (pieces text).2) := by
  simp only [pieces, List.foldr_cons, if_neg hc]

theorem allPieces_of_notMem {text : List Char} (h : '\n' ∉ text) : allPieces text = [text] := by
  induction text with
  | nil => rfl
  | cons c text ih =>
      obtain ⟨hc, htext⟩ := not_or.1 (mt List.mem_cons.2 h)
      obtain ⟨hfirst, hrest⟩ := List.cons.inj (ih htext)
      rw [allPieces, pieces_cons_of_ne (Ne.symm hc), hfirst, hrest]

theorem length_allPieces (text : List Char) :
    (allPieces text).length = text.count '\n' + 1 := by
  induction text with
  | nil => rfl
  | cons c text ih =>
      by_cases hc : c = '\n'
      · subst hc
        have hsplit := allPieces_append_newline [] text
        rw [List.nil_append] at hsplit
        rw [hsplit, List.length_append, ih, List.count_cons_self]
        exact Nat.add_comm 1 _
      · rw [allPieces, pieces_cons_of_ne hc, List.count_cons_of_ne hc, ← ih]
        rfl

theorem head_pieces (text : List Char) : (pieces text).1 = text.takeWhile (· ≠ '\n') := by
  induction text with
  | nil => rfl
  | cons c text ih =>
      by_cases hc : c = '\n'
      · subst hc
        rfl
      · rw [pieces_cons_of_ne hc, ih, List.takeWhile_cons_of_pos (by simpa using hc)]

/-- The piece that a place lies in is the one with as many newlines in front of it. -/
theorem getElem?_allPieces (before rest : List Char) :
    (allPieces (before ++ rest))[before.count '\n']? =
      some (openLine before ++ rest.takeWhile (· ≠ '\n')) := by
  -- from the right: the last character of `before` either ends a line or moves over to `rest`
  induction before using List.reverseRecOn generalizing rest with
  | nil =>
      rw [← head_pieces]
      rfl
  | append_singleton before c ih =>
      rw [List.append_assoc, List.singleton_append]
      by_cases hc : c = '\n'
      · subst hc
        have hcount : (before ++ ['\n']).count '\n' = (allPieces before).length := by
          rw [length_allPieces, List.count_append]
          rfl
        rw [hcount, allPieces_append_newline, List.getElem?_append_right le_rfl, Nat.sub_self,
          openLine_concat_newline, ← head_pieces]
        rfl
      · have hcount : (before ++ [c]).count '\n' = before.count '\n' := by
          rw [List.count_append, List.count_singleton]
          simp [hc]
        rw [hcount, ih, openLine_concat_of_ne before hc,
          List.takeWhile_cons_of_pos (by simpa using hc), List.append_assoc]
        rfl

/-- A piece that is not empty is a line, the last one as it stands and the others without a carriage
return at their end. -/
theorem getElem?_linesOfPieces {first piece : List Char} {rest : List (List Char)} {k : Nat}
    (h : (first :: rest)[k]? = some piece) (hne : piece ≠ []) :
    (linesOfPieces first rest)[k]? =
      some (if k < rest.length then dropReturn piece else piece) := by
  induction rest generalizing first k with
  | nil =>
      obtain ⟨hk, rfl⟩ := List.getElem?_eq_some_iff.1 h
      obtain rfl : k = 0 := by simpa using hk
      have hfirst : first.isEmpty = false := by simpa using hne
      simp [linesOfPieces, hfirst]
  | cons next rest ih =>
      cases k with
      | zero =>
          obtain rfl : first = piece := by simpa using h
          simp [linesOfPieces]
      | succ k =>
          rw [linesOfPieces, List.getElem?_cons_succ, ih h]
          simp

theorem getElem?_lines (before rest : List Char)
    (hne : openLine before ++ rest.takeWhile (· ≠ '\n') ≠ []) :
    ∃ line, (lines (before ++ rest))[before.count '\n']? = some line ∧
      (line = openLine before ++ rest.takeWhile (· ≠ '\n') ∨
        line = dropReturn (openLine before ++ rest.takeWhile (· ≠ '\n'))) := by
  have hpiece := getElem?_allPieces before rest
  refine ⟨_, getElem?_linesOfPieces hpiece hne, ?_⟩
  split
  · exact .inr rfl
  · exact .inl rfl

end Text

end TapeMachine
