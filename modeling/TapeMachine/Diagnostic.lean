import TapeMachine.Fault
import TapeMachine.Instruction
import TapeMachine.Text.Blank
import TapeMachine.Text.Line

/-!
# Diagnostics

Faults name instructions by their address, that is, by the number of instructions before them.  For
a reader the address is turned into a place in the source text, and the line there is shown with a
mark under the faulting character.
-/

namespace TapeMachine

namespace Source

/-- The offset of the instruction at `address` in the rest of a text of which `offset` characters
were passed. -/
def offsetFrom? (offset : Nat) : (address : Nat) → List Char → Option Nat
  | _, [] => none
  | 0, c :: rest => if Instruction.isCode c then some offset else offsetFrom? (offset + 1) 0 rest
  | address + 1, c :: rest =>
      offsetFrom? (offset + 1) (if Instruction.isCode c then address else address + 1) rest

def offset? (source : String) (address : Nat) : Option Nat :=
  offsetFrom? 0 address source.toList

end Source

/-- A place in a text; lines and columns are counted from one. -/
structure Position where
  line : Nat
  column : Nat
  deriving DecidableEq

namespace Position

def first : Position :=
  ⟨1, 1⟩

def advance (p : Position) (c : Char) : Position :=
  if c = '\n' then ⟨p.line + 1, 1⟩ else ⟨p.line, p.column + 1⟩

/-- The place of the character at `offset`, or of the end of the text if that comes before. -/
def ofOffset (source : String) (offset : Nat) : Position :=
  (source.toList.take offset).foldl advance first

end Position

namespace Diagnostic

/-- The number of characters shown on either side of the faulting one. -/
def reach : Nat :=
  32

/-- The part of a line around the character with index `index`, and a mark under that
character.  Tabs are shown as spaces, so that the mark stays below it. -/
def excerpt (line : List Char) (index : Nat) : String :=
  let start := index - reach
  let shown := (Text.dropEndWhile (· = '\r') line).drop start |>.take (index - start + reach + 1)
  let shown := String.ofList (shown.map fun c => if c = '\t' then ' ' else c)
  let margin := String.ofList (List.replicate (index - start) ' ')
  s!"  {shown}\n  {margin}^\n"

def label : Fault → String
  | .unmatchedLoopStart _ => "Parse error: unmatched '['"
  | .unmatchedLoopEnd _ => "Runtime error: unmatched ']'"
  | .pointerOutOfRange _ pointer => s!"Runtime error: pointer out of range (ptr={pointer})"
  | .stream _ error => s!"I/O error: {error.text}"
  | .tapeAllocation length => s!"Error: cannot allocate a tape of {length} cells"

def paint (text : String) : String :=
  s!"\x1b[1;31m{text}\x1b[0m"

/-- The message about a fault in `source`, which is known to the reader as `origin`. -/
def render (origin source : String) (fault : Fault) (color : Bool) : String :=
  let label := if color then paint (label fault) else label fault
  match fault.address?.bind fun address => (Source.offset? source address).map (address, ·) with
  | none => s!"{label}\n"
  | some (address, offset) =>
      let ⟨line, column⟩ := Position.ofOffset source offset
      let place := s!"{label} at {origin}:{line}:{column} (instruction {address})\n"
      match (Text.lines source.toList)[line - 1]? with
      | none => place
      | some text => place ++ excerpt text (column - 1)

end Diagnostic

end TapeMachine
