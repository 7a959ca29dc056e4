import Mathlib.Algebra.Group.Nat.Defs
import Mathlib.Data.List.TakeWhile
import TapeMachine.Proofs.SettingsReading

/-!
# Numerals

Which texts are the numerals of cell counts, and what is wrong with each of the others.  The digits
that a text begins with have a value, however many they are; reading them one by one stops with a
complaint exactly if this value does not fit into 64 bits, and what stands behind them matters only
if it does.
-/

namespace TapeMachine

namespace Numeral

/-- The text behind its sign, if it has one. -/
def unsigned : List Char → List Char
  | '+' :: rest => rest
  | text => text

/-- The digits that a text begins with, be it behind a sign. -/
def leadingDigits (text : List Char) : List Char :=
  (unsigned text).takeWhile Char.isDigit

def value (digits : List Char) : Nat :=
  Nat.ofDigitChars 10 digits 0

/-- The text consists of digits, one at least, with this value; one plus sign may stand in front. -/
def Denotes (text : List Char) (n : Nat) : Prop :=
  ∃ digits, (text = digits ∨ text = '+' :: digits) ∧ digits ≠ [] ∧
    (∀ c ∈ digits, c.isDigit) ∧ value digits = n

theorem digit?_of_isDigit {c : Char} (h : c.isDigit) : digit? c = some (c.toNat - '0'.toNat) :=
  if_pos h

theorem digit?_of_not_isDigit {c : Char} (h : ¬ c.isDigit) : digit? c = none :=
  if_neg h

theorem le_ofDigitChars (digits : List Char) (start : Nat) :
    start ≤ Nat.ofDigitChars 10 digits start := by
  rw [Nat.ofDigitChars_eq_ofDigitChars_zero]
  have hpow : 1 ≤ 10 ^ digits.length := Nat.one_le_pow _ _ (by decide)
  calc
    start = 1 * start := (Nat.one_mul start).symm
    _ ≤ 10 ^ digits.length * start := Nat.mul_le_mul_right start hpow
    _ ≤ _ := Nat.le_add_right _ _

/-- Reading digits behind others.  The value only grows, so it is too large in the end if it is too
large at any of the digits. -/
theorem readDigits_eq {start : Nat} (hstart : start < UInt64.size) (text : List Char) :
    readDigits start text =
      if UInt64.size ≤ Nat.ofDigitChars 10 (text.takeWhile Char.isDigit) start then
        .error .tooLarge
      else if text.takeWhile Char.isDigit = text then
        .ok (Nat.ofDigitChars 10 text start)
      else
        .error .invalidDigit := by
  induction text generalizing start with
  | nil => simp [readDigits, hstart]
  | cons c text ih =>
      by_cases hc : c.isDigit
      · simp only [readDigits, digit?_of_isDigit hc, List.takeWhile_cons_of_pos hc,
          Nat.ofDigitChars_cons, List.cons.injEq, true_and]
        split
        · next hlt => exact ih hlt
        · next hlt =>
            have hlarge := le_ofDigitChars (text.takeWhile Char.isDigit)
              (10 * start + (c.toNat - '0'.toNat))
            rw [if_pos ((Nat.le_of_not_lt hlt).trans hlarge)]
      · rw [readDigits, digit?_of_not_isDigit hc, List.takeWhile_cons_of_neg hc]
        simp [hstart]

/-- Reading a text.  The complaints come in this order: that nothing is there, that the digits are
too many, that something else is there than digits. -/
theorem read_eq {text : List Char} (hne : text ≠ []) :
    read text =
      if UInt64.size ≤ value (leadingDigits text) then .error .tooLarge
      else if leadingDigits text = [] ∨ leadingDigits text ≠ unsigned text then
        .error .invalidDigit
      else .ok (value (leadingDigits text)) := by
  have hdigits (text : List Char) (hne : text ≠ []) :
      readDigits 0 text =
        if UInt64.size ≤ value (text.takeWhile Char.isDigit) then .error .tooLarge
        else if text.takeWhile Char.isDigit = [] ∨ text.takeWhile Char.isDigit ≠ text then
          .error .invalidDigit
        else .ok (value (text.takeWhile Char.isDigit)) := by
    rw [readDigits_eq (by decide), value]
    by_cases hall : text.takeWhile Char.isDigit = text
    · simp [hall, hne]
    · simp [hall]
  unfold read
  split
  · contradiction
  · rfl
  · next digits hsign =>
      apply hdigits digits
      rintro rfl
      exact hsign rfl
  · next hplain =>
      have hsame : unsigned text = text := by
        unfold unsigned
        split
        · exact absurd rfl (hplain _)
        · rfl
      rw [leadingDigits, hsame]
      exact hdigits text hne

/-- A text is a numeral if digits are all that stands behind the sign. -/
theorem denotes_iff {text : List Char} {n : Nat} :
    Denotes text n ↔
      leadingDigits text ≠ [] ∧ leadingDigits text = unsigned text ∧
        value (leadingDigits text) = n := by
  constructor
  · rintro ⟨digits, htext, hne, hdigits, rfl⟩
    have hunsigned : unsigned text = digits := by
      rcases htext with rfl | rfl
      · -- a digit is no sign
        unfold unsigned
        split
        · next rest =>
            have hplus := hdigits '+' (by simp)
            contradiction
        · rfl
      · rfl
    have hleading : leadingDigits text = digits := by
      rw [leadingDigits, hunsigned, List.takeWhile_eq_self_iff]
      exact hdigits
    rw [hleading, hunsigned]
    exact ⟨hne, rfl, rfl⟩
  · rintro ⟨hne, hall, rfl⟩
    refine ⟨leadingDigits text, ?_, hne, ?_, rfl⟩
    · rw [hall]
      unfold unsigned
      split
      · exact .inr rfl
      · exact .inl rfl
    · intro c hc
      exact List.mem_takeWhile_imp hc

theorem Denotes.ne_nil {text : List Char} {n : Nat} (h : Denotes text n) : text ≠ [] := by
  obtain ⟨digits, rfl | rfl, hne, -⟩ := h
  · exact hne
  · simp

theorem read_eq_ok_iff {text : List Char} {n : Nat} :
    read text = .ok n ↔ Denotes text n ∧ n < UInt64.size := by
  by_cases hne : text = []
  · subst hne
    constructor
    · intro h
      contradiction
    · rintro ⟨h, -⟩
      exact absurd rfl h.ne_nil
  rw [read_eq hne, denotes_iff]
  split_ifs with hlarge hbad
  · constructor
    · intro h
      contradiction
    · rintro ⟨⟨-, -, rfl⟩, hlt⟩
      omega
  · constructor
    · intro h
      contradiction
    · rintro ⟨⟨hdigits, hall, -⟩, -⟩
      exact (hbad.elim hdigits fun h => h hall).elim
  · rw [not_or, not_not] at hbad
    rw [Except.ok.injEq]
    constructor
    · rintro rfl
      exact ⟨⟨hbad.1, hbad.2, rfl⟩, Nat.lt_of_not_le hlarge⟩
    · rintro ⟨⟨-, -, h⟩, -⟩
      exact h

/-- Every number is denoted by its decimal digits. -/
theorem denotes_toDigits (n : Nat) : Denotes (Nat.toDigits 10 n) n :=
  ⟨_, .inl rfl, Nat.toDigits_ne_nil, fun _ hc => Nat.isDigit_of_mem_toDigits (by decide) le_rfl hc,
    Nat.ofDigitChars_ten_toDigits⟩

end Numeral

namespace CellCount

variable {text : String} {count : CellCount}

theorem ofNat?_eq_some_iff {n : Nat} : ofNat? n = some count ↔ count.val = n := by
  unfold ofNat?
  split
  · next h =>
      obtain ⟨m, hpos, hlt⟩ := count
      simp [eq_comm]
  · next h =>
      have hne : count.val ≠ n := by
        rintro rfl
        exact h ⟨count.pos, count.lt⟩
      simp [hne]

theorem parse_eq (text : String) :
    parse text = (Numeral.read text.toList).bind fun n =>
      match ofNat? n with
      | some count => .ok count
      | none => .error .zero := by
  rw [parse]
  rfl

theorem parse_eq_ok_iff_read : parse text = .ok count ↔ Numeral.read text.toList = .ok count.val := by
  rw [parse_eq]
  cases Numeral.read text.toList with
  | error e => simp [Except.bind]
  | ok n =>
      rw [Except.bind, Except.ok.injEq, eq_comm (a := n), ← ofNat?_eq_some_iff]
      cases ofNat? n <;> simp

theorem parse_eq_ok_iff : parse text = .ok count ↔ Numeral.Denotes text.toList count.val := by
  rw [parse_eq_ok_iff_read, Numeral.read_eq_ok_iff, and_iff_left count.lt]

/-- What is wrong with a text that does not denote a cell count: it is empty, or else its leading
digits are worth too much, or else they are missing or do not reach its end, or else it denotes
zero. -/
def complaint (text : List Char) : NumeralError :=
  if text = [] then .empty
  else if 2 ^ 64 ≤ Numeral.value (Numeral.leadingDigits text) then .tooLarge
  else if Numeral.leadingDigits text = [] ∨
    Numeral.leadingDigits text ≠ Numeral.unsigned text then .invalidDigit
  else .zero

theorem parse_eq_error (h : ∀ count : CellCount, ¬ Numeral.Denotes text.toList count.val) :
    parse text = .error (complaint text.toList) := by
  rw [parse_eq, complaint]
  by_cases hne : text.toList = []
  · rw [hne, if_pos rfl]
    rfl
  rw [if_neg hne, Numeral.read_eq hne]
  change (ite (2 ^ 64 ≤ _) _ _ : Except NumeralError Nat).bind _ = _
  split_ifs with hlarge hbad
  · rfl
  · rfl
  · -- what was read is denoted by the text, so it can only be zero
    rw [not_or, not_not] at hbad
    have hdenotes := Numeral.denotes_iff.2 ⟨hbad.1, hbad.2, rfl⟩
    have hnone : ofNat? (Numeral.value (Numeral.leadingDigits text.toList)) = none := by
      rw [Option.eq_none_iff_forall_ne_some]
      intro count hcount
      rw [← ofNat?_eq_some_iff.1 hcount] at hdenotes
      exact h count hdenotes
    rw [Except.bind, hnone]

end CellCount

namespace Settings

open Numeral

/-- A text sets the tape length to the number that it denotes, if that is positive and fits into 64
bits.  Any other text leaves the settings as they are, and the complaint says what is wrong with
it. -/
theorem tapeLength_of_text (s : Settings) (text : String) :
    (∀ n, (∃ count : CellCount, count.val = n ∧
        s.assign .tapeLength text = .ok { s with tapeLength := some count }) ↔
      Denotes text.toList n ∧ 1 ≤ n ∧ n ≤ 2 ^ 64 - 1) ∧
    ((∀ n, ¬ (Denotes text.toList n ∧ 1 ≤ n ∧ n ≤ 2 ^ 64 - 1)) →
      s.assign .tapeLength text = .error (.cellCount (CellCount.complaint text.toList)) ∧
      ∀ origin ignored, Reading.push ⟨s, ignored⟩ ⟨origin, .tapeLength, text⟩ =
        ⟨s, ignored.push ⟨⟨origin, .tapeLength, text⟩,
          .cellCount (CellCount.complaint text.toList)⟩⟩) := by
  have hlt : UInt64.size = 2 ^ 64 := rfl
  constructor
  · intro n
    constructor
    · rintro ⟨count, rfl, hassign⟩
      rw [assign_tapeLength] at hassign
      have hparse : CellCount.parse text = .ok count := by
        cases hread : CellCount.parse text with
        | error e =>
            rw [hread] at hassign
            contradiction
        | ok read =>
            rw [hread] at hassign
            have hsame := congrArg tapeLength (Except.ok.inj hassign)
            rw [Option.some.inj hsame]
      have hfits := count.lt
      exact ⟨CellCount.parse_eq_ok_iff.1 hparse, count.pos, by omega⟩
    · rintro ⟨hdenotes, hpos, hle⟩
      let count : CellCount := ⟨n, hpos, by omega⟩
      have hparse : CellCount.parse text = .ok count := CellCount.parse_eq_ok_iff.2 hdenotes
      refine ⟨count, rfl, ?_⟩
      rw [assign_tapeLength, hparse]
      rfl
  · intro h
    have hparse : CellCount.parse text = .error (CellCount.complaint text.toList) := by
      apply CellCount.parse_eq_error
      intro count hdenotes
      have hfits := count.lt
      exact h count.val ⟨hdenotes, count.pos, by omega⟩
    have hassign : s.assign .tapeLength text =
        .error (.cellCount (CellCount.complaint text.toList)) := by
      rw [assign_tapeLength, hparse]
      rfl
    refine ⟨hassign, ?_⟩
    intro origin ignored
    rw [Reading.push, hassign]

/-- The twentieth nine makes the value too large, so it does not matter that something else follows;
with one nine less it does. -/
example :
    CellCount.complaint "+99999999999999999999x".toList = .tooLarge ∧
      CellCount.complaint "+9999999999999999999x".toList = .invalidDigit := by
  decide

end Settings

end TapeMachine
