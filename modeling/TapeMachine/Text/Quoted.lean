import TapeMachine.Text.Shapeless

/-!
# Quoted texts

Messages show a value between double quotes, so that its ends can be seen.  Double quotes and
backslashes in it get a backslash, and so do the control characters with a letter of their own;
every other character that would not be seen is shown by its code point.
-/

namespace TapeMachine.Text

/-- How a quoted text shows one character. -/
def quoteChar (c : Char) : List Char :=
  match c with
  | '"' => ['\\', '"']
  | '\\' => ['\\', '\\']
  | '\t' => ['\\', 't']
  | '\r' => ['\\', 'r']
  | '\n' => ['\\', 'n']
  | '\x00' => ['\\', '0']
  | c =>
      if isShapeless c then
        ['\\', 'u', '\x7b'] ++ Nat.toDigits 16 c.toNat ++ ['\x7d']
      else
        [c]

def quote (text : String) : String :=
  String.ofList ('"' :: text.toList.flatMap quoteChar ++ ['"'])

end TapeMachine.Text
