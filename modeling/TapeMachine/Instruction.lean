/-!
# Instructions

The machine has eight instructions, each written as one ASCII character.  Every other character of
a source text is a comment, so reading the instructions of a text is a filter and never fails.
-/

namespace TapeMachine

inductive Instruction where
  | moveRight
  | moveLeft
  | increment
  | decrement
  | output
  | input
  | loopStart
  | loopEnd
  deriving DecidableEq

namespace Instruction

def toChar : Instruction → Char
  | moveRight => '>'
  | moveLeft => '<'
  | increment => '+'
  | decrement => '-'
  | output => '.'
  | input => ','
  | loopStart => '['
  | loopEnd => ']'

/-- The instruction that a character stands for; `none` for a comment character. -/
def ofChar? : Char → Option Instruction
  | '>' => some moveRight
  | '<' => some moveLeft
  | '+' => some increment
  | '-' => some decrement
  | '.' => some output
  | ',' => some input
  | '[' => some loopStart
  | ']' => some loopEnd
  | _ => none

@[simp] theorem ofChar?_toChar (i : Instruction) : ofChar? i.toChar = some i := by
  cases i <;> rfl

/-- Each instruction has exactly one spelling. -/
theorem ofChar?_eq_some_iff {c : Char} {i : Instruction} : ofChar? c = some i ↔ c = i.toChar := by
  constructor
  · intro h
    unfold ofChar? at h
    split at h <;> simp_all [toChar] <;> subst h <;> rfl
  · rintro rfl
    exact ofChar?_toChar i

def isCode (c : Char) : Bool :=
  (ofChar? c).isSome

/-- The instructions of a source text, comments dropped. -/
def ofSource (source : String) : List Instruction :=
  source.toList.filterMap ofChar?

end Instruction

end TapeMachine
