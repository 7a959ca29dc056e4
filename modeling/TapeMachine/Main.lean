import TapeMachine.CommandLine.Command

/-!
# The program

The library decides what to do, and this module does it: it looks up the variables and files that a
call may need, makes the stream calls that the machine asks for, and prints.  Before each input or
output instruction the calls are made for real, and their outcomes are then given to the machine as
its streams, so that the machine sees what happened.
-/

namespace TapeMachine.CommandLine

def streamError (e : IO.Error) : StreamError :=
  { kind := match e with | .interrupted .. => .interrupted | _ => .other, text := toString e }

/-- Makes read calls until one is not interrupted. -/
partial def observeReads (input : IO.FS.Stream) : IO (List ReadOutcome) := do
  try
    let bytes ← input.read 1
    match bytes.toList with
    | [] => return [.endOfInput]
    | value :: _ => return [.byte value]
  catch e =>
    let error := streamError e
    if error.isInterruption then return .failure error :: (← observeReads input)
    else return [.failure error]

/-- Makes write calls until one is not interrupted. -/
partial def observeWrites (output : IO.FS.Stream) (value : UInt8) : IO (List WriteOutcome) := do
  try
    output.write (ByteArray.mk #[value])
    return [.accepted]
  catch e =>
    let error := streamError e
    if error.isInterruption then return .failure error :: (← observeWrites output value)
    else return [.failure error]

def observeFlush (output : IO.FS.Stream) : IO FlushOutcome := do
  try
    output.flush
    return .done
  catch e => return .failure (streamError e)

/-- Makes the stream calls of one instruction. -/
def observe (input output : IO.FS.Stream) (m : Machine) : Instruction → IO Streams
  | .output => do return { writes := ← observeWrites output m.tape.get }
  | .input => do
      match ← observeFlush output with
      | .failure e => return { flushes := [.failure e] }
      | .done => return { reads := ← observeReads input, flushes := [.done] }
  | _ => return {}

/-- Executes instructions until the program ends or one fails. -/
partial def drive (job : Job) (input output : IO.FS.Stream) (m : Machine) : IO Attempt := do
  match job.program.code[m.address]? with
  | none => return { machine := m, streams := {} }
  | some instruction =>
      let streams ← observe input output m instruction
      match m.execute job.program job.config.eof streams instruction with
      | ⟨m, _, _, none⟩ => drive job input output m
      | attempt => return attempt

def fileError : IO.Error → FileError
  | .noFileOrDirectory .. => .notFound
  | .inappropriateType _ 20 _ => .notADirectory
  | .inappropriateType _ _ _ => .isDirectory
  | e => .other (toString e)

def lookUpFile (path : String) : IO (String × Except FileError (List UInt8)) := do
  try
    let bytes ← IO.FS.readBinFile path
    return (path, .ok bytes.toList)
  catch e => return (path, .error (fileError e))

/-- The names of all variables that matter. -/
def variableNames : List String :=
  ["BFRUN_CONFIG", "BFRUN_LOG", "HOME", "XDG_CONFIG_HOME"] ++
    Settings.Source.settingVariables.map (·.1)

/-- The variables and files that a call with these arguments may need. -/
def lookUpHost (texts : List String) : IO Host := do
  let values ← variableNames.filterMapM fun name => do
    return (← IO.getEnv name).map fun value => (name, value.toUTF8.toList)
  let environment (name : String) : Option (List UInt8) := values.lookup name
  let settingsPath :=
    Settings.Source.filePath? { environment, file := fun _ => .error .notFound }
  let programPath := (Arguments.parse texts).toOption.bind (·.file)
  let files ← (settingsPath.toList ++ programPath.toList).mapM lookUpFile
  return { environment, file := fun path => (files.lookup path).getD (.error .notFound) }

def call (texts : List String) : IO UInt32 := do
  let host ← lookUpHost texts
  let ending ←
    match start host texts with
    | .error ending => pure ending
    | .ok job =>
        let input ← IO.getStdin
        let output ← IO.getStdout
        let attempt ← drive job input output job.machine
        let flushed ← observeFlush output
        let attempt := { attempt with streams := { flushes := [flushed] } }
        pure (job.conclude (Machine.finish attempt))
  let errors ← IO.getStderr
  errors.putStr (ending.errors host)
  errors.flush
  return ending.status.toUInt32

end TapeMachine.CommandLine

def main (texts : List String) : IO UInt32 :=
  TapeMachine.CommandLine.call texts
