import TapeMachine.Fault
import TapeMachine.Instruction

/-!
# Programs

A program is its list of instructions with a table that sends the address of each loop start to the
address of its loop end.  The table is filled in one pass over the instructions, keeping the loop
starts that still wait for their partner.

A loop end with nothing to close is kept, without an entry; it is for the machine to complain when
it gets there.  A loop start that is never closed makes the whole text unacceptable, and the
outermost one is named.
-/

namespace TapeMachine

/-- What is known about the loops of the instructions seen so far. -/
structure LoopScan where
  /-- Loop starts without a partner yet, the innermost first. -/
  waiting : List Nat := []
  /-- For each address, the partner of the loop start there. -/
  jumps : Array (Option Nat) := #[]

namespace LoopScan

/-- Takes in the next instruction, whose address is the number of instructions seen. -/
def push : LoopScan → Instruction → LoopScan
  | ⟨waiting, jumps⟩, .loopStart => ⟨jumps.size :: waiting, jumps.push none⟩
  | ⟨start :: waiting, jumps⟩, .loopEnd =>
      let address := jumps.size
      ⟨waiting, (jumps.push none).setIfInBounds start (some address)⟩
  | ⟨waiting, jumps⟩, _ => ⟨waiting, jumps.push none⟩

@[simp] theorem size_jumps_push (s : LoopScan) (i : Instruction) :
    (s.push i).jumps.size = s.jumps.size + 1 := by
  obtain ⟨waiting, jumps⟩ := s
  cases i <;> cases waiting <;> simp [push]

def ofCode (code : List Instruction) : LoopScan :=
  code.foldl push {}

theorem ofCode_concat (code : List Instruction) (i : Instruction) :
    ofCode (code ++ [i]) = (ofCode code).push i := by
  simp [ofCode]

theorem size_jumps_foldl (s : LoopScan) (code : List Instruction) :
    (code.foldl push s).jumps.size = s.jumps.size + code.length := by
  induction code generalizing s with
  | nil => rfl
  | cons i code ih =>
      rw [List.foldl_cons, ih, size_jumps_push, List.length_cons]
      omega

@[simp] theorem size_jumps_ofCode (code : List Instruction) :
    (ofCode code).jumps.size = code.length := by
  rw [ofCode, size_jumps_foldl]
  simp

end LoopScan

/-- Instructions with the partners of their loop starts. -/
structure Program where
  code : Array Instruction
  jumps : Array (Option Nat)
  size_jumps : jumps.size = code.size
  deriving DecidableEq

namespace Program

/-- Builds the loop table; fails at the outermost loop start that is never closed. -/
def ofCode (code : List Instruction) : Except Fault Program :=
  let scan := LoopScan.ofCode code
  match scan.waiting.getLast? with
  | some address => .error (.unmatchedLoopStart address)
  | none => .ok { code := code.toArray, jumps := scan.jumps, size_jumps := by simp [scan] }

def parse (source : String) : Except Fault Program :=
  ofCode (Instruction.ofSource source)

def size (p : Program) : Nat :=
  p.code.size

def isEmpty (p : Program) : Bool :=
  p.code.isEmpty

/-- The address of the loop end that closes the loop start at `address`. -/
def jumpTarget? (p : Program) (address : Nat) : Option Nat :=
  p.jumps[address]?.join

def loopCount (p : Program) : Nat :=
  p.jumps.countP Option.isSome

/-- Each loop with the addresses of its two ends, by ascending start. -/
def loops (p : Program) : List (Nat × Nat) :=
  (List.range p.size).filterMap fun address => (p.jumpTarget? address).map (address, ·)

def render (p : Program) : String :=
  String.ofList (p.code.toList.map Instruction.toChar)

end Program

end TapeMachine
