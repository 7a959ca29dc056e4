import Mathlib.Algebra.GroupWithZero.Nat
import Mathlib.Data.Set.Function
import TapeMachine.Proofs.SourcePosition

/-!
# Lines and columns

The positions of a text, its end included, are in the order of reading: each character moves on to
the right or down to the next line.  From a position the offset can be computed back, since all
pieces above it and the newlines behind them have been passed, and so much of its own piece as the
column says.

A position also leads to its character among the lines of the text, as long as that character is
left in a line, which newlines are not, nor the carriage returns that belong to them.
-/

namespace TapeMachine

namespace Text

theorem allPieces_eq_splitOn (text : List Char) : allPieces text = text.splitOn '\n' := by
  rw [List.splitOn_eq_splitOnP]
  induction text with
  | nil => rfl
  | cons c text ih =>
      rw [List.splitOnP_cons_eq_if_modifyHead]
      by_cases hc : c = '\n'
      · subst hc
        rw [if_pos (beq_self_eq_true _), ← ih]
        exact allPieces_append_newline [] text
      · rw [if_neg (by simpa using hc), ← ih, allPieces, pieces_cons_of_ne hc]
        rfl

theorem count_newline_concat (before : List Char) {c : Char} (hc : c ≠ '\n') :
    (before ++ [c]).count '\n' = before.count '\n' := by
  have hnone : [c].count '\n' = 0 := List.count_eq_zero_of_not_mem (by simpa using Ne.symm hc)
  rw [List.count_append, hnone, Nat.add_zero]

/-- A text that was read up to some place consists of the pieces that were left behind, the newlines
that end them, and what was read of the piece there. -/
theorem length_eq_sum_pieces (before rest : List Char) :
    before.length =
      (((allPieces (before ++ rest)).take (before.count '\n')).map List.length).sum +
        before.count '\n' + (openLine before).length := by
  induction before using List.reverseRecOn generalizing rest with
  | nil => simp [openLine]
  | append_singleton before c ih =>
      have hbefore := ih (c :: rest)
      rw [List.append_assoc, List.singleton_append, List.length_append, List.length_singleton]
      by_cases hc : c = '\n'
      · -- the piece that the newline ends was read to its end, and is left behind now
        subst hc
        have hcount : (before ++ ['\n']).count '\n' = before.count '\n' + 1 := by
          rw [List.count_append, List.count_singleton_self]
        have hpiece := getElem?_allPieces before ('\n' :: rest)
        rw [List.takeWhile_cons_of_neg (by simp), List.append_nil] at hpiece
        rw [hcount, List.take_add_one, hpiece, Option.toList_some, List.map_append,
          List.sum_append, List.map_singleton, List.sum_singleton, openLine_concat_newline,
          List.length_nil]
        omega
      · rw [count_newline_concat before hc, openLine_concat_of_ne before hc, List.length_append,
          List.length_singleton]
        omega

theorem getElem?_dropReturn {text : List Char} {k : Nat} {c : Char} (h : text[k]? = some c)
    (hlast : c = '\r' → k + 1 < text.length) : (dropReturn text)[k]? = some c := by
  have hk : k < text.length := (List.getElem?_eq_some_iff.1 h).1
  unfold dropReturn
  split
  · next hreturn =>
      have hlt : k < text.length - 1 := by
        rcases Nat.lt_or_ge (k + 1) text.length with hlt | hge
        · omega
        · -- the character would be the carriage return at the end
          have hend : k = text.length - 1 := by omega
          rw [List.getLast?_eq_getElem?, ← hend, h] at hreturn
          exact absurd (hlast (Option.some.inj hreturn)) hge.not_gt
      rw [List.getElem?_dropLast, if_pos hlt, h]
  · exact h

/-- A character that is left in the lines of a text is found in the line with as many newlines in
front of it, where it stands in its piece. -/
theorem getElem?_lines_of_split (before : List Char) {after : List Char} {c : Char} (hc : c ≠ '\n')
    (hreturn : c = '\r' → after.head? ≠ some '\n') :
    ∃ text, (lines (before ++ c :: after))[before.count '\n']? = some text ∧
      text[(openLine before).length]? = some c := by
  let piece := openLine before ++ c :: after.takeWhile (· ≠ '\n')
  have hpiece : (allPieces (before ++ c :: after))[before.count '\n']? = some piece := by
    rw [getElem?_allPieces, List.takeWhile_cons_of_pos (by simpa using hc)]
  have hne : piece ≠ [] := List.append_ne_nil_of_right_ne_nil _ (List.cons_ne_nil _ _)
  have hchar : piece[(openLine before).length]? = some c := by
    rw [List.getElem?_append_right le_rfl, Nat.sub_self, List.getElem?_cons_zero]
  refine ⟨_, getElem?_linesOfPieces hpiece hne, ?_⟩
  split
  · next hinner =>
      apply getElem?_dropReturn hchar
      rintro rfl
      -- behind a carriage return at the end of the piece there is a newline or nothing
      cases after with
      | nil =>
          have hlength : (pieces (before ++ ['\r'])).2.length = before.count '\n' := by
            have hall := length_allPieces (before ++ ['\r'])
            rw [count_newline_concat before hc] at hall
            exact Nat.succ.inj hall
          exact absurd hinner hlength.le.not_gt
      | cons d after =>
          have hd : d ≠ '\n' := by simpa using hreturn rfl
          simp [piece, List.takeWhile_cons_of_pos, hd]
  · exact hchar

end Text

namespace Position

/-- The order of reading: from one line to the next, and in a line from left to right. -/
def Before (p q : Position) : Prop :=
  p.line < q.line ∨ p.line = q.line ∧ p.column < q.column

instance (p q : Position) : Decidable (p.Before q) :=
  inferInstanceAs (Decidable (_ ∨ _))

theorem Before.ne {p q : Position} (h : p.Before q) : p ≠ q := by
  rintro rfl
  rcases h with h | ⟨-, h⟩
  · exact lt_irrefl _ h
  · exact lt_irrefl _ h

theorem Before.trans {p q r : Position} (h : p.Before q) (h' : q.Before r) : p.Before r := by
  unfold Before at *
  omega

theorem before_advance (p : Position) (c : Char) : p.Before (p.advance c) := by
  unfold advance
  split
  · exact .inl (Nat.lt_succ_self _)
  · exact .inr ⟨rfl, Nat.lt_succ_self _⟩

variable {source : String} {offset offset' : Nat}

theorem ofOffset_min (source : String) (offset : Nat) :
    ofOffset source (min offset source.length) = ofOffset source offset := by
  rw [ofOffset, ofOffset, ← String.length_toList, ← List.take_eq_take_min]

theorem ofOffset_succ {c : Char} (h : source.toList[offset]? = some c) :
    ofOffset source (offset + 1) = (ofOffset source offset).advance c := by
  rw [ofOffset, List.take_add_one, h, Option.toList_some, List.foldl_append]
  rfl

theorem before_ofOffset (hlt : offset < offset') (hle : offset' ≤ source.length) :
    (ofOffset source offset).Before (ofOffset source offset') := by
  induction offset', hlt using Nat.le_induction with
  | base =>
      rw [← String.length_toList] at hle
      rw [ofOffset_succ (List.getElem?_eq_getElem hle)]
      exact before_advance _ _
  | succ offset' _ ih =>
      have hnext := hle
      rw [← String.length_toList] at hnext
      rw [ofOffset_succ (List.getElem?_eq_getElem hnext)]
      exact (ih (Nat.le_of_succ_le hle)).trans (before_advance _ _)

theorem ofOffset_eq (source : String) (offset : Nat) :
    ofOffset source offset =
      ⟨(source.toList.take offset).count '\n' + 1,
        (Text.openLine (source.toList.take offset)).length + 1⟩ :=
  foldl_advance _

theorem offset_eq_sum (hle : offset ≤ source.length) :
    offset = (((source.toList.splitOn '\n').take ((ofOffset source offset).line - 1)).map
        List.length).sum +
      ((ofOffset source offset).line - 1) + ((ofOffset source offset).column - 1) := by
  have hsum := Text.length_eq_sum_pieces (source.toList.take offset) (source.toList.drop offset)
  rw [List.take_append_drop, Text.allPieces_eq_splitOn, List.length_take, String.length_toList,
    Nat.min_eq_left hle] at hsum
  rwa [ofOffset_eq]

theorem exists_line_of_getElem? {c : Char} (h : source.toList[offset]? = some c) (hc : c ≠ '\n')
    (hreturn : c = '\r' → source.toList[offset + 1]? ≠ some '\n') :
    ∃ text, (Text.lines source.toList)[(ofOffset source offset).line - 1]? = some text ∧
      text[(ofOffset source offset).column - 1]? = some c := by
  obtain ⟨hlt, rfl⟩ := List.getElem?_eq_some_iff.1 h
  have hsplit : source.toList =
      source.toList.take offset ++ source.toList[offset] :: source.toList.drop (offset + 1) := by
    rw [← List.drop_eq_getElem_cons hlt, List.take_append_drop]
  rw [← List.head?_drop] at hreturn
  have hline := Text.getElem?_lines_of_split (source.toList.take offset) hc hreturn
  rw [← hsplit] at hline
  simpa only [ofOffset_eq, Nat.add_sub_cancel] using hline

/-- Offsets and positions of a text.  An offset behind the end has the position of the end.  From
the first character to the end a larger offset has a later position in the order of reading, so no
two have the same.  Lines and columns are counted from one, and from a position the offset is
computed back by the pieces that the newlines cut the text into.  The character at an offset is
found in the line and column of its position, unless it is a newline or a carriage return that
belongs to one. -/
theorem positions_of_offsets (source : String) :
    (∀ offset, ofOffset source offset = ofOffset source (min offset source.length)) ∧
    (∀ offset offset', offset < offset' → offset' ≤ source.length →
      (ofOffset source offset).Before (ofOffset source offset')) ∧
    Set.InjOn (ofOffset source) {offset | offset ≤ source.length} ∧
    (∀ offset, 1 ≤ (ofOffset source offset).line ∧ 1 ≤ (ofOffset source offset).column) ∧
    (∀ offset line column, offset ≤ source.length → ofOffset source offset = ⟨line, column⟩ →
      offset = (((source.toList.splitOn '\n').take (line - 1)).map List.length).sum + (line - 1) +
        (column - 1)) ∧
    ∀ offset c line column, source.toList[offset]? = some c → c ≠ '\n' →
      ¬ (c = '\r' ∧ source.toList[offset + 1]? = some '\n') →
      ofOffset source offset = ⟨line, column⟩ →
        ∃ text, (Text.lines source.toList)[line - 1]? = some text ∧ text[column - 1]? = some c := by
  refine ⟨?_, fun _ _ => before_ofOffset, ?_, ?_, ?_, ?_⟩
  · intro offset
    exact (ofOffset_min source offset).symm
  · intro offset hle offset' hle' heq
    rcases Nat.lt_trichotomy offset offset' with hlt | rfl | hgt
    · exact absurd heq (before_ofOffset hlt hle').ne
    · rfl
    · exact absurd heq.symm (before_ofOffset hgt hle).ne
  · intro offset
    rw [ofOffset_eq]
    exact ⟨Nat.succ_pos _, Nat.succ_pos _⟩
  · intro offset line column hle hposition
    have hsum := offset_eq_sum hle
    rwa [hposition] at hsum
  · intro offset c line column hchar hc hreturn hposition
    have hline := exists_line_of_getElem? hchar hc fun h hnext => hreturn ⟨h, hnext⟩
    rwa [hposition] at hline

/-- One carriage return belongs to a newline and one stands alone, and the text ends with a
newline. -/
theorem positions_of_offsets_returns :
    let source := "a\r\n\n\ré+\n"
    source.length = 8 ∧ ofOffset source 100 = ofOffset source 8 ∧
      (ofOffset source 2).Before (ofOffset source 3) ∧
      (ofOffset source 6 = ⟨3, 3⟩ ∧
        6 = (((source.toList.splitOn '\n').take 2).map List.length).sum + 2 + 2) ∧
      (source.toList[4]? = some '\r' ∧ ofOffset source 4 = ⟨3, 1⟩ ∧
        ∃ text, (Text.lines source.toList)[2]? = some text ∧ text[0]? = some '\r') := by
  intro source
  have hlength : source.length = 8 := by decide
  have hplus : ofOffset source 6 = ⟨3, 3⟩ := by decide
  have hreturn : ofOffset source 4 = ⟨3, 1⟩ := by decide
  have hchar : source.toList[4]? = some '\r' := by decide
  obtain ⟨hend, hbefore, -, -, hsum, hlines⟩ := positions_of_offsets source
  have hpast := hend 100
  rw [hlength] at hpast
  refine ⟨hlength, hpast, hbefore 2 3 (by decide) (by decide), ⟨hplus, ?_⟩, hchar, hreturn, ?_⟩
  · exact hsum 6 3 3 (by decide) hplus
  · exact hlines 4 '\r' 3 1 hchar (by decide) (by decide) hreturn

end Position

end TapeMachine
