import TapeMachine.Settings.Layer
import TapeMachine.Text.Line

/-!
# Settings files

A settings file consists of sections, each opened by a header in square brackets.  In the section
`interpreter`, a line of the form `key = value` is an assignment; the value may be written between
double quotes.  A number sign begins a comment, unless it stands between quotes.  Everything else,
unknown keys and other sections included, is passed over.
-/

namespace TapeMachine.Settings.File

/-- The line up to its comment.  `quoted` tells whether a quote is open, and `kept` is what was
passed, in reverse. -/
def stripCommentFrom (quoted : Bool) (kept : List Char) : List Char → List Char
  | [] => kept.reverse
  | c :: rest =>
      if c = '#' && !quoted then kept.reverse
      else stripCommentFrom (if c = '"' then !quoted else quoted) (c :: kept) rest

def stripComment (line : List Char) : List Char :=
  stripCommentFrom false [] line

/-- Removes one enclosing pair of double quotes. -/
def unquote (text : List Char) : List Char :=
  if 2 ≤ text.length && text.head? = some '"' && text.getLast? = some '"' then
    (text.drop 1).dropLast
  else
    text

inductive Line where
  | header (name : List Char)
  | assignment (key value : List Char)
  | other
  deriving DecidableEq

/-- Classifies a line without comment and surrounding blanks. -/
def Line.classify (line : List Char) : Line :=
  if line.head? = some '[' && line.getLast? = some ']' then
    .header (Text.trim (line.drop 1).dropLast)
  else
    match line.dropWhile (· ≠ '=') with
    | [] => .other
    | _ :: value =>
        .assignment (Text.trim (line.takeWhile (· ≠ '='))) (unquote (Text.trim value))

def Line.ofText (line : List Char) : Line :=
  classify (Text.trim (stripComment line))

/-- The name of the section that holds the settings. -/
def sectionName : List Char :=
  "interpreter".toList

/-- What was found in the lines so far. -/
structure Scan where
  /-- Whether the next line lies in the section of the settings. -/
  inside : Bool := false
  found : Array Assignment := #[]

def Scan.push (origin : String) : Scan → Line → Scan
  | ⟨_, found⟩, .header name => ⟨name = sectionName, found⟩
  | ⟨false, found⟩, _ => ⟨false, found⟩
  | ⟨true, found⟩, .other => ⟨true, found⟩
  | ⟨true, found⟩, .assignment name value =>
      match Key.ofName? (String.ofList name) with
      | none => ⟨true, found⟩
      | some key => ⟨true, found.push ⟨origin, key, String.ofList value⟩⟩

/-- The assignments of a file that is known as `origin`. -/
def assignments (origin content : String) : List Assignment :=
  let lines := (Text.lines content.toList).map Line.ofText
  (lines.foldl (Scan.push origin) {}).found.toList

def read (origin content : String) : Reading :=
  Reading.ofAssignments (assignments origin content)

end TapeMachine.Settings.File
