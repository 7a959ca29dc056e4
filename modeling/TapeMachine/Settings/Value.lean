import TapeMachine.Config
import TapeMachine.Text.Blank

/-!
# Values of settings

The words that stand for the addressing modes, the policies at the end of the input and the two
truth values.  Blanks around a word and the case of its ASCII letters do not matter.
-/

namespace TapeMachine

inductive ValueError where
  | cellCount (reason : NumeralError)
  | notBoolean
  | unknownAddressing (word : String)
  | unknownEof (word : String)
  deriving DecidableEq

def ValueError.message : ValueError → String
  | cellCount reason => reason.message
  | notBoolean => "expected true or false"
  | unknownAddressing word =>
      s!"unknown addressing mode '{word}' (expected bounded or circular)"
  | unknownEof word => s!"unknown eof policy '{word}' (expected zero, max or unchanged)"

def Addressing.parse (text : String) : Except ValueError Addressing :=
  match Text.word text with
  | "bounded" => .ok .bounded
  | "circular" => .ok .circular
  | word => .error (.unknownAddressing word)

def EofPolicy.parse (text : String) : Except ValueError EofPolicy :=
  match Text.word text with
  | "zero" => .ok .zero
  | "0" => .ok .zero
  | "max" => .ok .max
  | "255" => .ok .max
  | "-1" => .ok .max
  | "unchanged" => .ok .unchanged
  | "keep" => .ok .unchanged
  | word => .error (.unknownEof word)

def parseBool (text : String) : Except ValueError Bool :=
  match Text.word text with
  | "true" => .ok true
  | "1" => .ok true
  | "yes" => .ok true
  | "on" => .ok true
  | "false" => .ok false
  | "0" => .ok false
  | "no" => .ok false
  | "off" => .ok false
  | _ => .error .notBoolean

end TapeMachine
