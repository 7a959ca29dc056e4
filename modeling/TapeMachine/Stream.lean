/-!
# Byte streams with scripted behaviour

A run talks to its surroundings through three kinds of calls: reading one byte, writing one byte and
flushing what was written.  What the calls do is given as three scripts, one outcome per call.  When
a script has ended, reads report the end of the input, writes are accepted and flushes succeed.

An interrupted read or write is made again at once; an interrupted flush is not.  Every call, the
repeated ones included, is recorded as an `Event`.
-/

namespace TapeMachine

inductive StreamErrorKind where
  | brokenPipe
  | interrupted
  | unexpectedEnd
  | wouldBlock
  | permissionDenied
  | timedOut
  | invalidData
  | connectionReset
  | notFound
  | writeZero
  | other
  deriving DecidableEq

/-- The text of a failure that brings no text of its own. -/
def StreamErrorKind.text : StreamErrorKind → String
  | brokenPipe => "broken pipe"
  | interrupted => "operation interrupted"
  | unexpectedEnd => "unexpected end of file"
  | wouldBlock => "operation would block"
  | permissionDenied => "permission denied"
  | timedOut => "timed out"
  | invalidData => "invalid data"
  | connectionReset => "connection reset"
  | notFound => "entity not found"
  | writeZero => "write zero"
  | other => "other error"

structure StreamError where
  kind : StreamErrorKind
  text : String
  deriving DecidableEq

namespace StreamError

def ofKind (kind : StreamErrorKind) : StreamError :=
  { kind, text := kind.text }

/-- A write that took no byte at all: the byte can never be delivered. -/
def nothingWritten : StreamError :=
  { kind := .writeZero, text := "failed to write whole buffer" }

/-- Whether the call should simply be made again. -/
def isInterruption (e : StreamError) : Bool :=
  e.kind = .interrupted

end StreamError

inductive ReadOutcome where
  | byte (value : UInt8)
  | endOfInput
  | failure (error : StreamError)
  deriving DecidableEq

/-- What one attempt to write a byte does.  A refused write reports no failure but takes nothing. -/
inductive WriteOutcome where
  | accepted
  | refused
  | failure (error : StreamError)
  deriving DecidableEq

inductive FlushOutcome where
  | done
  | failure (error : StreamError)
  deriving DecidableEq

inductive Event where
  | read (outcome : ReadOutcome)
  | write (value : UInt8) (outcome : WriteOutcome)
  | flush (outcome : FlushOutcome)
  deriving DecidableEq

/-- The byte that a call delivered to the output, if it delivered one. -/
def Event.delivered? : Event → Option UInt8
  | write value .accepted => some value
  | _ => none

/-- What the coming calls will do. -/
structure Streams where
  reads : List ReadOutcome := []
  writes : List WriteOutcome := []
  flushes : List FlushOutcome := []
  deriving DecidableEq

/-- The result of using a stream: what the user gets, the streams afterwards and the calls made. -/
structure Transfer (α : Type) where
  result : Except StreamError α
  streams : Streams
  events : List Event

namespace Streams

/-- Streams that never fail, with the given input. -/
def ofInput (bytes : List UInt8) : Streams :=
  { reads := bytes.map .byte }

def readFrom : List ReadOutcome →
    Except StreamError (Option UInt8) × List ReadOutcome × List Event
  | [] => (.ok none, [], [.read .endOfInput])
  | .byte value :: rest => (.ok (some value), rest, [.read (.byte value)])
  | .endOfInput :: rest => (.ok none, rest, [.read .endOfInput])
  | .failure e :: rest =>
      if e.isInterruption then
        let (result, rest, events) := readFrom rest
        (result, rest, .read (.failure e) :: events)
      else
        (.error e, rest, [.read (.failure e)])

def writeTo (value : UInt8) : List WriteOutcome →
    Except StreamError Unit × List WriteOutcome × List Event
  | [] => (.ok (), [], [.write value .accepted])
  | .accepted :: rest => (.ok (), rest, [.write value .accepted])
  | .refused :: rest => (.error .nothingWritten, rest, [.write value .refused])
  | .failure e :: rest =>
      if e.isInterruption then
        let (result, rest, events) := writeTo value rest
        (result, rest, .write value (.failure e) :: events)
      else
        (.error e, rest, [.write value (.failure e)])

/-- Reads one byte; `none` at the end of the input. -/
def read (s : Streams) : Transfer (Option UInt8) :=
  let (result, reads, events) := readFrom s.reads
  { result, streams := { s with reads }, events }

def write (s : Streams) (value : UInt8) : Transfer Unit :=
  let (result, writes, events) := writeTo value s.writes
  { result, streams := { s with writes }, events }

/-- Flushes the output.  A failing flush is not repeated, whatever the reason. -/
def flush (s : Streams) : Transfer Unit :=
  match s.flushes with
  | [] => { result := .ok (), streams := s, events := [.flush .done] }
  | .done :: flushes =>
      { result := .ok (), streams := { s with flushes }, events := [.flush .done] }
  | .failure e :: flushes =>
      { result := .error e, streams := { s with flushes }, events := [.flush (.failure e)] }

end Streams

end TapeMachine
