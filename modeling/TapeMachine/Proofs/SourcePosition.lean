import TapeMachine.Diagnostic
import TapeMachine.Proofs.Lines

/-!
# Places in a source text

An instruction is known by its address in the program, by its offset in the text, and by its line
and column.  All three are counts over what stands in front of it: the address counts the
instructions there, the line counts the newlines, and the column counts the characters behind the
last newline.
-/

namespace TapeMachine

namespace Position

theorem foldl_advance (before : List Char) :
    before.foldl advance first = ⟨before.count '\n' + 1, (Text.openLine before).length + 1⟩ := by
  induction before using List.reverseRecOn with
  | nil => rfl
  | append_singleton before c ih =>
      rw [List.foldl_append, ih, List.foldl_cons, List.foldl_nil, advance, List.count_append]
      split
      · next hc =>
          subst hc
          rw [Text.openLine_concat_newline]
          rfl
      · next hc =>
          rw [Text.openLine_concat_of_ne before hc, List.length_append, List.count_singleton]
          simp [hc]

theorem ofOffset_length {source : String} {before rest : List Char}
    (h : source.toList = before ++ rest) :
    ofOffset source before.length =
      ⟨before.count '\n' + 1, (Text.openLine before).length + 1⟩ := by
  rw [ofOffset, h, List.take_left, foldl_advance]

end Position

namespace Source

open Instruction

/-- The character of an instruction, with what stands on either side of it. -/
theorem exists_split {text : List Char} {address : Nat} {i : Instruction}
    (h : (text.filterMap ofChar?)[address]? = some i) :
    ∃ before c after, text = before ++ c :: after ∧ ofChar? c = some i ∧
      (before.filterMap ofChar?).length = address := by
  induction text generalizing address with
  | nil => simp at h
  | cons c text ih =>
      cases hc : ofChar? c with
      | none =>
          rw [List.filterMap_cons_none hc] at h
          obtain ⟨before, d, after, rfl, hd, hlength⟩ := ih h
          refine ⟨c :: before, d, after, rfl, hd, ?_⟩
          rw [List.filterMap_cons_none hc, hlength]
      | some j =>
          rw [List.filterMap_cons_some hc] at h
          cases address with
          | zero => exact ⟨[], c, text, rfl, hc.trans h, rfl⟩
          | succ address =>
              obtain ⟨before, d, after, rfl, hd, hlength⟩ := ih h
              refine ⟨c :: before, d, after, rfl, hd, ?_⟩
              rw [List.filterMap_cons_some hc, List.length_cons, hlength]

theorem offsetFrom?_cons_of_none {c : Char} (hc : ofChar? c = none) (offset address : Nat)
    (text : List Char) :
    offsetFrom? offset address (c :: text) = offsetFrom? (offset + 1) address text := by
  cases address <;> simp [offsetFrom?, isCode, hc]

theorem offsetFrom?_split {c : Char} (hc : (ofChar? c).isSome) (offset : Nat)
    (before after : List Char) :
    offsetFrom? offset (before.filterMap ofChar?).length (before ++ c :: after) =
      some (offset + before.length) := by
  induction before generalizing offset with
  | nil => simp [offsetFrom?, isCode, hc]
  | cons b before ih =>
      have hnext := ih (offset + 1)
      rw [List.length_cons, Nat.add_comm before.length, ← Nat.add_assoc, List.cons_append]
      cases hb : ofChar? b with
      | none => rw [List.filterMap_cons_none hb, offsetFrom?_cons_of_none hb, hnext]
      | some i =>
          rw [List.filterMap_cons_some hb, List.length_cons, offsetFrom?, isCode, hb,
            Option.isSome_some, if_pos rfl, hnext]

theorem offsetFrom?_eq_none {text : List Char} {address : Nat}
    (h : (text.filterMap ofChar?).length ≤ address) (offset : Nat) :
    offsetFrom? offset address text = none := by
  induction text generalizing address offset with
  | nil => cases address <;> rfl
  | cons c text ih =>
      cases hc : ofChar? c with
      | none =>
          rw [List.filterMap_cons_none hc] at h
          rw [offsetFrom?_cons_of_none hc]
          exact ih h _
      | some i =>
          rw [List.filterMap_cons_some hc, List.length_cons] at h
          cases address with
          | zero => omega
          | succ address =>
              rw [offsetFrom?, isCode, hc, Option.isSome_some, if_pos rfl]
              apply ih
              omega

theorem offset?_split {source : String} {before after : List Char} {c : Char}
    (h : source.toList = before ++ c :: after) (hc : (ofChar? c).isSome) :
    offset? source (before.filterMap ofChar?).length = some before.length := by
  rw [offset?, h, offsetFrom?_split hc, Nat.zero_add]

theorem offset?_eq_none {source : String} {address : Nat}
    (h : (ofSource source).length ≤ address) : offset? source address = none :=
  offsetFrom?_eq_none h 0

end Source

end TapeMachine
