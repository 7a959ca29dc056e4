import TapeMachine.CellCount

/-!
# The tape

A tape has a fixed number of byte cells and a pointer to one of them.  Cell arithmetic wraps modulo
256.  What happens when the pointer would leave the tape is chosen by the addressing mode: a bounded
tape refuses the move, a circular tape continues at the other end.
-/

namespace TapeMachine

/-- What moving off either end of the tape does. -/
inductive Addressing where
  | bounded
  | circular
  deriving DecidableEq

def Addressing.name : Addressing → String
  | bounded => "bounded"
  | circular => "circular"

/-- Cells and a pointer to one of them. -/
structure Tape where
  cells : Array UInt8
  pointer : Nat
  addressing : Addressing
  pointer_lt : pointer < cells.size
  deriving DecidableEq

namespace Tape

/-- The greatest length for which memory can be had: the address space of one process. -/
def maxLength : Nat :=
  1 <<< 47

/-- A tape of zeros with the pointer at its first cell; `none` if it does not fit into memory. -/
def allocate? (length : CellCount) (addressing : Addressing) : Option Tape :=
  if length.val ≤ maxLength then
    some
      { cells := Array.replicate length.val 0
        pointer := 0
        addressing
        pointer_lt := by simpa using length.pos }
  else
    none

def length (t : Tape) : Nat :=
  t.cells.size

def get : Tape → UInt8
  | ⟨cells, pointer, _, _⟩ => cells[pointer]

def set : Tape → UInt8 → Tape
  | ⟨cells, pointer, addressing, h⟩, value =>
      ⟨cells.set pointer value h, pointer, addressing, by simpa using h⟩

@[simp] theorem length_set (t : Tape) (value : UInt8) : (t.set value).length = t.length := by
  simp [set, length]

@[simp] theorem pointer_set (t : Tape) (value : UInt8) : (t.set value).pointer = t.pointer :=
  rfl

@[simp] theorem get_set (t : Tape) (value : UInt8) : (t.set value).get = value := by
  simp [set, get]

/-- Adds one to the current cell; 255 becomes 0. -/
def increment (t : Tape) : Tape :=
  t.set (t.get + 1)

/-- Subtracts one from the current cell; 0 becomes 255. -/
def decrement (t : Tape) : Tape :=
  t.set (t.get - 1)

/-- The same cells with the pointer at another of them. -/
def moveTo (t : Tape) (pointer : Nat) (h : pointer < t.length) : Tape :=
  { t with pointer, pointer_lt := h }

/-- Moves one cell to the right, or tells which cell is missing. -/
def moveRight (t : Tape) : Except Int Tape :=
  if h : t.pointer + 1 < t.length then
    .ok (t.moveTo (t.pointer + 1) h)
  else
    match t.addressing with
    | .bounded => .error (t.pointer + 1)
    | .circular => .ok (t.moveTo 0 (Nat.zero_lt_of_lt t.pointer_lt))

/-- Moves one cell to the left, or tells which cell is missing. -/
def moveLeft (t : Tape) : Except Int Tape :=
  if t.pointer = 0 then
    match t.addressing with
    | .bounded => .error (-1)
    | .circular =>
        .ok (t.moveTo (t.length - 1) (Nat.sub_lt (Nat.zero_lt_of_lt t.pointer_lt) Nat.one_pos))
  else
    .ok (t.moveTo (t.pointer - 1) (Nat.lt_of_le_of_lt (Nat.sub_le _ _) t.pointer_lt))

/-- The cells that are not zero, with their addresses, ascending. -/
def nonzero (t : Tape) : List (Nat × UInt8) :=
  (List.range t.length).filterMap fun i =>
    t.cells[i]?.bind fun value => if value = 0 then none else some (i, value)

end Tape

end TapeMachine
