/-!
# Lines

Newlines cut a text into pieces.  The lines of a text are these pieces, with two exceptions: a
carriage return right before a newline belongs to the newline, and an empty piece behind the last
newline is no line.
-/

namespace TapeMachine.Text

/-- The pieces of a text: what stands before the first newline, and the pieces behind it. -/
def pieces (text : List Char) : List Char × List (List Char) :=
  text.foldr
    (fun c (first, rest) => if c = '\n' then ([], first :: rest) else (c :: first, rest))
    ([], [])

/-- A newline keeps the pieces on either side of it apart. -/
theorem pieces_append_newline (a b : List Char) :
    pieces (a ++ '\n' :: b) =
      ((pieces a).1, (pieces a).2 ++ (pieces b).1 :: (pieces b).2) := by
  induction a with
  | nil => simp [pieces]
  | cons c a ih =>
      simp only [pieces, List.cons_append, List.foldr_cons] at ih ⊢
      rw [ih]
      split <;> rfl

def dropReturn (line : List Char) : List Char :=
  if line.getLast? = some '\r' then line.dropLast else line

/-- The lines of a text that consists of these pieces. -/
def linesOfPieces : List Char → List (List Char) → List (List Char)
  | last, [] => if last.isEmpty then [] else [last]
  | first, next :: rest => dropReturn first :: linesOfPieces next rest

def lines (text : List Char) : List (List Char) :=
  let (first, rest) := pieces text
  linesOfPieces first rest

end TapeMachine.Text
