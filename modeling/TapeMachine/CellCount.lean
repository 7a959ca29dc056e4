/-!
# Cell counts

A tape has at least one cell, and no more cells than a 64-bit word can count.  A cell count is
written with decimal digits, optionally after one plus sign.  The digits are taken from left to
right, and reading stops at the first character that is no digit and at the first digit that makes
the value too large.
-/

namespace TapeMachine

/-- A positive number of 64 bits. -/
structure CellCount where
  val : Nat
  pos : 0 < val
  lt : val < UInt64.size
  deriving DecidableEq

inductive NumeralError where
  | empty
  | invalidDigit
  | tooLarge
  | zero
  deriving DecidableEq

def NumeralError.message : NumeralError → String
  | empty => "cannot parse integer from empty string"
  | invalidDigit => "invalid digit found in string"
  | tooLarge => "number too large to fit in target type"
  | zero => "number would be zero for non-zero type"

namespace Numeral

def digit? (c : Char) : Option Nat :=
  if c.isDigit then some (c.toNat - '0'.toNat) else none

/-- Appends digits to a number that was read before. -/
def readDigits (value : Nat) : List Char → Except NumeralError Nat
  | [] => .ok value
  | c :: rest =>
      match digit? c with
      | none => .error .invalidDigit
      | some digit =>
          if 10 * value + digit < UInt64.size then readDigits (10 * value + digit) rest
          else .error .tooLarge

/-- Reads a number of 64 bits.  A sign needs a digit behind it. -/
def read : List Char → Except NumeralError Nat
  | [] => .error .empty
  | ['+'] => .error .invalidDigit
  | '+' :: digits => readDigits 0 digits
  | digits => readDigits 0 digits

end Numeral

namespace CellCount

def ofNat? (n : Nat) : Option CellCount :=
  if h : 0 < n ∧ n < UInt64.size then some ⟨n, h.1, h.2⟩ else none

/-- The length of a tape whose length was not chosen. -/
def default : CellCount :=
  ⟨65536, by decide, by decide⟩

def parse (text : String) : Except NumeralError CellCount := do
  let value ← Numeral.read text.toList
  match ofNat? value with
  | some count => return count
  | none => throw .zero

end CellCount

end TapeMachine
