/-!
# Decoding UTF-8

Bytes are decoded one at a time.  Between two bytes the decoder knows which bytes may come next; a
byte that may not come next ends the unfinished character before it as ill-formed, and is then
looked at afresh.  In this way each longest beginning of a character that is not completed counts
as one ill-formed part, and no byte of ASCII is ever lost inside one.

`decode?` accepts well-formed texts only; `decodeLossy` puts U+FFFD for each ill-formed part.
-/

namespace TapeMachine.Text.Utf8

/-- An unfinished character. -/
structure Unfinished where
  /-- The number of bytes still missing. -/
  missing : Nat
  /-- The least and the greatest next byte. -/
  low : UInt8
  high : UInt8
  /-- The bits known so far. -/
  value : Nat
  deriving DecidableEq

/-- What a byte that begins something begins. -/
inductive Lead where
  | complete (c : Char)
  | starts (p : Unfinished)
  | illFormed
  deriving DecidableEq

/-- Classifies a byte that stands at the beginning of a character.  The ranges for the second byte
keep out the overlong forms, the surrogates and what lies beyond U+10FFFF. -/
def lead (b : UInt8) : Lead :=
  if b < 0x80 then .complete (Char.ofUInt8 b)
  else if b < 0xC2 then .illFormed
  else if b < 0xE0 then .starts ⟨1, 0x80, 0xBF, b.toNat - 0xC0⟩
  else if b < 0xF0 then
    .starts ⟨2, if b = 0xE0 then 0xA0 else 0x80, if b = 0xED then 0x9F else 0xBF, b.toNat - 0xE0⟩
  else if b < 0xF5 then
    .starts ⟨3, if b = 0xF0 then 0x90 else 0x80, if b = 0xF4 then 0x8F else 0xBF, b.toNat - 0xF0⟩
  else .illFormed

structure Decoder where
  /-- The characters found, with `none` for each ill-formed part. -/
  found : Array (Option Char) := #[]
  unfinished : Option Unfinished := none

namespace Decoder

/-- Takes in a byte with no character unfinished. -/
def start (found : Array (Option Char)) (b : UInt8) : Decoder :=
  match lead b with
  | .complete c => { found := found.push (some c) }
  | .starts p => { found, unfinished := some p }
  | .illFormed => { found := found.push none }

def push : Decoder → UInt8 → Decoder
  | ⟨found, none⟩, b => start found b
  | ⟨found, some p⟩, b =>
      if p.low ≤ b && b ≤ p.high then
        let value := 64 * p.value + (b.toNat - 0x80)
        if p.missing ≤ 1 then { found := found.push (some (Char.ofNat value)) }
        else { found, unfinished := some ⟨p.missing - 1, 0x80, 0xBF, value⟩ }
      else
        start (found.push none) b

def finish : Decoder → Array (Option Char)
  | ⟨found, none⟩ => found
  | ⟨found, some _⟩ => found.push none

end Decoder

/-- The characters of a text, with `none` for each ill-formed part. -/
def decodeParts (bytes : List UInt8) : List (Option Char) :=
  (bytes.foldl Decoder.push {}).finish.toList

def replacement : Char :=
  '\uFFFD'

/-- The text with a replacement character for each ill-formed part. -/
def decodeLossy (bytes : List UInt8) : String :=
  String.ofList ((decodeParts bytes).map (·.getD replacement))

/-- The text, if all of it is well-formed. -/
def decode? (bytes : List UInt8) : Option String :=
  let parts := decodeParts bytes
  if parts.all Option.isSome then some (String.ofList (parts.filterMap id)) else none

end TapeMachine.Text.Utf8
