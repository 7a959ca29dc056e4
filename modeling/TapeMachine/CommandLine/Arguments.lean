import TapeMachine.Settings.Layer

/-!
# Command line arguments

Arguments are read from left to right.  A short option is one letter behind a dash, several of them
may share the dash, and a value may follow at once, behind an equals sign or as an argument of its
own.  A long option is a word behind two dashes.  Two dashes alone end the options.

An option or file is `settled`, that is, its value is read and its repetition noticed, only when the
next one begins.  So an argument that cannot be understood at all is reported before a bad value
just before it.  Options that exclude each other are noticed at the very end.
-/

namespace TapeMachine.CommandLine

inductive Parameter where
  | circular
  | bounded
  | size
  | eof
  | code
  | file
  | help
  deriving DecidableEq

namespace Parameter

def spelling : Parameter → String
  | circular => "--circular"
  | bounded => "--bounded"
  | size => "--size <CELLS>"
  | eof => "--eof <POLICY>"
  | code => "--code <CODE>"
  | file => "[FILE]"
  | help => "--help"

def takesValue : Parameter → Bool
  | size => true
  | eof => true
  | code => true
  | file => true
  | _ => false

def ofLong? : String → Option Parameter
  | "circular" => some circular
  | "bounded" => some bounded
  | "size" => some size
  | "eof" => some eof
  | "code" => some code
  | "help" => some help
  | _ => none

def ofShort? : Char → Option Parameter
  | 'c' => some circular
  | 'b' => some bounded
  | 's' => some size
  | 'e' => some code
  | 'h' => some help
  | _ => none

/-- The parameter that must not be given together with this one. -/
def rival? : Parameter → Option Parameter
  | circular => some bounded
  | bounded => some circular
  | code => some file
  | file => some code
  | _ => none

end Parameter

/-- What the arguments ask for. -/
structure Arguments where
  circular : Bool := false
  bounded : Bool := false
  size : Option CellCount := none
  eof : Option EofPolicy := none
  code : Option String := none
  file : Option String := none
  help : Bool := false
  deriving DecidableEq

def Arguments.settings (a : Arguments) : Settings where
  tapeLength := a.size
  addressing := if a.circular then some .circular else if a.bounded then some .bounded else none
  eof := a.eof

inductive ArgumentError where
  | unexpected (argument : String)
  | unexpectedValue (value : String) (parameter : Parameter)
  | missingValue (parameter : Parameter)
  | invalidValue (value : String) (parameter : Parameter) (reason : ValueError)
  | repeated (parameter : Parameter)
  | conflict (first second : Parameter)
  deriving DecidableEq

def ArgumentError.message : ArgumentError → String
  | unexpected argument => s!"unexpected argument '{argument}' found"
  | unexpectedValue value parameter =>
      s!"unexpected value '{value}' for '{parameter.spelling}' found; no more were expected"
  | missingValue parameter =>
      s!"a value is required for '{parameter.spelling}' but none was supplied"
  | invalidValue value parameter reason =>
      s!"invalid value '{value}' for '{parameter.spelling}': {reason.message}"
  | repeated parameter =>
      s!"the argument '{parameter.spelling}' cannot be used multiple times"
  | conflict first second =>
      s!"the argument '{first.spelling}' cannot be used with '{second.spelling}'"

inductive Token where
  | separator
  | long (name : String) (value : Option String)
  | cluster (letters : List Char)
  | plain (text : String)
  deriving DecidableEq

/-- The shape of an argument.  A dash alone is as plain as any other text. -/
def Token.ofText (text : String) : Token :=
  match text.toList with
  | ['-', '-'] => .separator
  | '-' :: '-' :: rest =>
      let name := String.ofList (rest.takeWhile (· ≠ '='))
      match rest.dropWhile (· ≠ '=') with
      | [] => .long name none
      | _ :: value => .long name (some (String.ofList value))
  | '-' :: letter :: letters => .cluster (letter :: letters)
  | _ => .plain text

/-- What is known after some of the arguments. -/
structure ArgumentScan where
  arguments : Arguments := {}
  /-- The parameters settled so far. -/
  settled : List Parameter := []
  /-- The latest parameter with a value, not settled yet, and the value if it is already there. -/
  pending : Option (Parameter × Option String) := none
  ended : Bool := false

namespace ArgumentScan

def store (a : Arguments) (parameter : Parameter) (value : String) :
    Except ArgumentError Arguments :=
  match parameter with
  | .circular => .ok { a with circular := true }
  | .bounded => .ok { a with bounded := true }
  | .help => .ok { a with help := true }
  | .code => .ok { a with code := some value }
  | .file =>
      if value.isEmpty then .error (.missingValue .file) else .ok { a with file := some value }
  | .size =>
      match CellCount.parse value with
      | .ok size => .ok { a with size := some size }
      | .error reason => .error (.invalidValue value .size (.cellCount reason))
  | .eof =>
      match EofPolicy.parse value with
      | .ok eof => .ok { a with eof := some eof }
      | .error reason => .error (.invalidValue value .eof reason)

def settleWith (s : ArgumentScan) (parameter : Parameter) (value : String) :
    Except ArgumentError ArgumentScan := do
  if parameter ∈ s.settled then throw (.repeated parameter)
  let arguments ← store s.arguments parameter value
  return { s with arguments, settled := s.settled ++ [parameter] }

/-- Settles the pending parameter. -/
def settle (s : ArgumentScan) : Except ArgumentError ArgumentScan :=
  match s.pending with
  | none => .ok s
  | some (parameter, none) => .error (.missingValue parameter)
  | some (parameter, some value) => { s with pending := none }.settleWith parameter value

def flag (s : ArgumentScan) (parameter : Parameter) : Except ArgumentError ArgumentScan := do
  (← s.settle).settleWith parameter ""

/-- Takes in an option with the value written behind it, if there is one. -/
def option (s : ArgumentScan) (parameter : Parameter) (value : Option String) :
    Except ArgumentError ArgumentScan := do
  let s ← s.settle
  match value with
  | some value => s.settleWith parameter value
  | none => return { s with pending := some (parameter, none) }

/-- Takes in letters that share a dash.  The first of them that has a value takes all that
follows. -/
def letters (s : ArgumentScan) : List Char → Except ArgumentError ArgumentScan
  | [] => .ok s
  | letter :: rest =>
      match Parameter.ofShort? letter with
      | none => .error (.unexpected (String.ofList ['-', letter]))
      | some parameter =>
          if parameter.takesValue then
            match rest with
            | [] => s.option parameter none
            | '=' :: value => s.option parameter (some (String.ofList value))
            | value => s.option parameter (some (String.ofList value))
          else do
            (← s.flag parameter).letters rest

/-- Takes in a word behind two dashes. -/
def long (s : ArgumentScan) (name : String) (value : Option String) :
    Except ArgumentError ArgumentScan :=
  match Parameter.ofLong? name with
  | none => .error (.unexpected ("--" ++ name))
  | some parameter =>
      if parameter.takesValue then s.option parameter value
      else
        match value with
        | some value => .error (.unexpectedValue value parameter)
        | none => s.flag parameter

def hasFile (s : ArgumentScan) : Bool :=
  s.settled.contains .file || s.pending.any (·.1 = .file)

def plain (s : ArgumentScan) (text : String) : Except ArgumentError ArgumentScan :=
  if s.hasFile then .error (.unexpected text)
  else do
    let s ← s.settle
    return { s with pending := some (.file, some text) }

def push (s : ArgumentScan) (text : String) : Except ArgumentError ArgumentScan :=
  if s.ended then s.plain text
  else
    match Token.ofText text with
    | .separator => .ok { s with ended := true }
    | .long name value => s.long name value
    | .cluster letters => s.letters letters
    | .plain text =>
        match s.pending with
        | some (parameter, none) => .ok { s with pending := some (parameter, some text) }
        | _ => s.plain text

/-- The first parameter given together with its rival, and the rival. -/
def conflict? (given : List Parameter) : Option (Parameter × Parameter) :=
  given.findSome? fun parameter =>
    parameter.rival?.bind fun rival =>
      if rival ∈ given then some (parameter, rival) else none

end ArgumentScan

def Arguments.parse (texts : List String) : Except ArgumentError Arguments := do
  let s ← texts.foldlM ArgumentScan.push {}
  let s ← s.settle
  match ArgumentScan.conflict? s.settled with
  | some (first, second) => throw (.conflict first second)
  | none => return s.arguments

end TapeMachine.CommandLine
