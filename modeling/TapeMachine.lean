import TapeMachine.Interpreter
import TapeMachine.Main
import TapeMachine.Proofs.LoopTable
import TapeMachine.Proofs.Action
import TapeMachine.Proofs.Moment
import TapeMachine.Proofs.LoopStack
import TapeMachine.Proofs.StrayLoopEnd
import TapeMachine.Proofs.Block
import TapeMachine.Proofs.Replay
import TapeMachine.Proofs.Structured
import TapeMachine.Proofs.StructuredRun
import TapeMachine.Proofs.DepthScan
import TapeMachine.Proofs.TapeMoves
import TapeMachine.Proofs.FaultCause
import TapeMachine.Proofs.Lockstep
import TapeMachine.Proofs.LongerTape
import TapeMachine.Proofs.Lines
import TapeMachine.Proofs.Trimming
import TapeMachine.Proofs.SourcePosition
import TapeMachine.Proofs.FaultPlace
import TapeMachine.Proofs.AppendedCode
import TapeMachine.Proofs.Sequence
import TapeMachine.Proofs.EncodedCharacter
import TapeMachine.Proofs.LossyDecoding
import TapeMachine.Proofs.StreamCalls
import TapeMachine.Proofs.Attempts
import TapeMachine.Proofs.SettingsLine
import TapeMachine.Proofs.SettingsReading
import TapeMachine.Proofs.SettingsFile
import TapeMachine.Proofs.Comments
import TapeMachine.Proofs.Parting
import TapeMachine.Proofs.Causality
import TapeMachine.Proofs.CommandOutcome
import TapeMachine.Proofs.SettingsLayers
import TapeMachine.Proofs.SettingsResolution
import TapeMachine.Proofs.Simulation
import TapeMachine.Proofs.Interruptions
import TapeMachine.Proofs.EndOfInput
import TapeMachine.Proofs.Circle
import TapeMachine.Proofs.Rotation
import TapeMachine.Proofs.Reflection
import TapeMachine.Proofs.TapeHistory
import TapeMachine.Proofs.StackHeight
import TapeMachine.Proofs.Acceptance
import TapeMachine.Proofs.LoopNesting
import TapeMachine.Proofs.LoopOnZero
import TapeMachine.Proofs.Rest
import TapeMachine.Proofs.Numeral
import TapeMachine.Proofs.SettingsSeam
import TapeMachine.Proofs.SettingsWriting
import TapeMachine.Proofs.InstructionOffset
import TapeMachine.Proofs.LineColumn
import TapeMachine.Proofs.BlockExecution
import TapeMachine.Proofs.Multiplication
import TapeMachine.Proofs.Echo
