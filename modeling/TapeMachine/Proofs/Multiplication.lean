import TapeMachine.Proofs.AppendedCode
import TapeMachine.Proofs.BlockExecution
import TapeMachine.Proofs.Comments

/-!
# A program that multiplies

With `a` plus signs in front of a loop and `b` plus signs in it, the program adds `b` to its third
cell as often as `a` says, and it counts the rounds down in its first cell.  The second cell is
counted down in the inner loop, which carries it over to the third.  Both counters are bytes, so
that a loop is skipped if its number is a multiple of 256, and the product is right up to a multiple
of 256 in any case.

The tapes on the way are given as they are seen from the pointer: the cells to the left of it, the
nearest one first, the current cell, and the cells to the right.
-/

namespace TapeMachine

namespace Tape

/-- The tape with the given current cell, the cells to the left of it, the nearest one first, and
the cells to the right of it. -/
def around (addressing : Addressing) (left : List UInt8) (value : UInt8) (right : List UInt8) :
    Tape where
  cells := (left.reverse ++ value :: right).toArray
  pointer := left.length
  addressing
  pointer_lt := by simp

variable {addressing : Addressing} {left right : List UInt8} {value : UInt8}

theorem length_around :
    (around addressing left value right).length = left.length + 1 + right.length := by
  simp only [length, around, List.size_toArray, List.length_append, List.length_reverse,
    List.length_cons]
  omega

@[simp] theorem get_around : (around addressing left value right).get = value := by
  simp [get, around]

@[simp] theorem set_around (value' : UInt8) :
    (around addressing left value right).set value' = around addressing left value' right := by
  simp [set, around, List.set_append_right]

theorem increment_around :
    (around addressing left value right).increment = around addressing left (value + 1) right := by
  rw [increment, get_around, set_around]

theorem decrement_around :
    (around addressing left value right).decrement = around addressing left (value - 1) right := by
  rw [decrement, get_around, set_around]

theorem moveRight_around (next : UInt8) :
    (around addressing left value (next :: right)).moveRight =
      .ok (around addressing (value :: left) next right) := by
  have hinside : (around addressing left value (next :: right)).pointer + 1 <
      (around addressing left value (next :: right)).length := by
    change left.length + 1 < _
    rw [length_around, List.length_cons]
    omega
  rw [moveRight, dif_pos hinside]
  simp [moveTo, around]

theorem moveLeft_around (previous : UInt8) :
    (around addressing (previous :: left) value right).moveLeft =
      .ok (around addressing left previous (value :: right)) := by
  have hinside : (around addressing (previous :: left) value right).pointer ≠ 0 :=
    Nat.succ_ne_zero left.length
  rw [moveLeft, if_neg hinside]
  simp [moveTo, around]

/-- A new tape of at least three cells. -/
theorem exists_around_of_allocate? {length : CellCount} {tape : Tape}
    (h : allocate? length addressing = some tape) (hthree : 3 ≤ length.val) :
    ∃ more, length.val = more + 3 ∧
      tape = around addressing [] 0 (0 :: 0 :: List.replicate more 0) := by
  obtain ⟨more, hmore⟩ := Nat.exists_eq_add_of_le' hthree
  refine ⟨more, hmore, ?_⟩
  have hcells : Array.replicate (more + 3) (0 : UInt8) =
      (0 :: 0 :: 0 :: List.replicate more 0).toArray := rfl
  unfold allocate? at h
  split at h
  · obtain rfl := Option.some.inj h
    simp [around, hmore, hcells]
  · contradiction

end Tape

namespace Block

open Tape

variable {eof : EofPolicy} {addressing : Addressing} {left right : List UInt8} {value : UInt8}
  {body rest : Block} {tape' : Tape}

/-! ## Counting in a cell -/

/-- The current cell is incremented as often as told before the rest is executed. -/
def increments : Nat → Block → Block
  | 0, rest => rest
  | n + 1, rest => act .increment (increments n rest)

theorem code_increments (n : Nat) (rest : Block) :
    (increments n rest).code = List.replicate n Instruction.increment ++ rest.code := by
  induction n with
  | zero => rfl
  | succ n ih =>
      rw [increments, code, ih, List.replicate_succ, List.cons_append]
      rfl

theorem Turns.increments {n : Nat}
    (hrest : Turns eof rest (around addressing left (value + UInt8.ofNat n) right) tape') :
    Turns eof (increments n rest) (around addressing left value right) tape' := by
  induction n generalizing value with
  | zero =>
      have hvalue : value + UInt8.ofNat 0 = value := by grind
      rwa [hvalue] at hrest
  | succ n ih =>
      have hvalue : value + UInt8.ofNat (n + 1) = value + 1 + UInt8.ofNat n := by
        rw [UInt8.ofNat_add]
        grind
      rw [hvalue] at hrest
      apply Turns.increment
      rw [increment_around]
      exact ih hrest

/-- A loop that counts the current cell down to zero, the cells to the right of it being changed in
each round. -/
theorem Turns.counted {right : Nat → List UInt8} (n : UInt8)
    (hbody : ∀ k < n.toNat, Turns eof body
      (around addressing left (UInt8.ofNat k + 1) (right (k + 1)))
      (around addressing left (UInt8.ofNat k) (right k)))
    (hrest : Turns eof rest (around addressing left 0 (right 0)) tape') :
    Turns eof (loop body rest) (around addressing left n (right n.toNat)) tape' := by
  let tapes (k : Nat) : Tape := around addressing left (UInt8.ofNat k) (right k)
  have hnonzero (k : Nat) (hk : k < n.toNat) : (tapes (k + 1)).get ≠ 0 := by
    have hlt : k + 1 < 256 := Nat.lt_of_le_of_lt hk n.toNat_lt
    rw [get_around]
    intro hzero
    have htoNat : (UInt8.ofNat (k + 1)).toNat = 0 := congrArg UInt8.toNat hzero
    rw [UInt8.toNat_ofNat_of_lt' hlt] at htoNat
    exact absurd htoNat (Nat.succ_ne_zero k)
  have hround (k : Nat) (hk : k < n.toNat) : Turns eof body (tapes (k + 1)) (tapes k) := by
    have hcounter : UInt8.ofNat (k + 1) = UInt8.ofNat k + 1 := UInt8.ofNat_add k 1
    simp only [tapes, hcounter]
    exact hbody k hk
  have hloop : Turns eof (loop body rest) (tapes n.toNat) tape' := by
    apply countdown
    · exact get_around
    · exact hnonzero
    · exact hround
    · exact hrest
  have hlast : tapes n.toNat = around addressing left n (right n.toNat) := by
    simp only [tapes, UInt8.ofNat_toNat]
  rwa [hlast] at hloop

/-! ## The program -/

/-- Adds the current cell to the next one, which leaves zero in it: `[>+<-]`. -/
def transfer (rest : Block) : Block :=
  loop (act .moveRight (act .increment (act .moveLeft (act .decrement done)))) rest

theorem Turns.transfer {next : UInt8}
    (hrest : Turns eof rest (around addressing left 0 ((next + value) :: right)) tape') :
    Turns eof (transfer rest) (around addressing left value (next :: right)) tape' := by
  -- what is left in the one cell is what the other one still lacks
  let cells (k : Nat) : List UInt8 := (next + value - UInt8.ofNat k) :: right
  have hfirst : cells value.toNat = next :: right := by
    simp only [cells, UInt8.ofNat_toNat, UInt8.add_sub_cancel]
  have hlast : cells 0 = (next + value) :: right := by
    have hzero : UInt8.ofNat 0 = 0 := rfl
    simp only [cells, hzero, UInt8.sub_zero]
  rw [← hfirst]
  rw [← hlast] at hrest
  apply Turns.counted value _ hrest
  intro k hk
  have hnext : next + value - UInt8.ofNat (k + 1) + 1 = next + value - UInt8.ofNat k := by
    rw [UInt8.ofNat_add]
    grind
  apply Turns.moveRight (moveRight_around _)
  apply Turns.increment
  rw [increment_around, hnext]
  apply Turns.moveLeft (moveLeft_around _)
  apply Turns.decrement
  rw [decrement_around, UInt8.add_sub_cancel]
  exact Turns.done _

/-- `a` increments, and then a loop that adds `b` to the third cell: `[>+…+[>+<-]<-]`. -/
def multiplication (a b : Nat) : Block :=
  increments a (loop (act .moveRight (increments b (transfer
    (act .moveLeft (act .decrement done))))) done)

theorem turns_multiplication (a b : Nat) (right : List UInt8) :
    Turns eof (multiplication a b) (around addressing [] 0 (0 :: 0 :: right))
      (around addressing [] 0 (0 :: UInt8.ofNat (a * b) :: right)) := by
  -- with `k` rounds still to come the third cell lacks `b` that many times
  let lacking (k : Nat) : UInt8 := (UInt8.ofNat a - UInt8.ofNat k) * UInt8.ofNat b
  let cells (k : Nat) : List UInt8 := 0 :: lacking k :: right
  have hfirst : cells (UInt8.ofNat a).toNat = 0 :: 0 :: right := by
    simp only [cells, lacking, UInt8.ofNat_toNat, UInt8.sub_self, UInt8.zero_mul]
  have hlast : cells 0 = 0 :: UInt8.ofNat (a * b) :: right := by
    have hzero : UInt8.ofNat 0 = 0 := rfl
    simp only [cells, lacking, hzero, UInt8.sub_zero, UInt8.ofNat_mul]
  apply Turns.increments
  rw [← hfirst, ← hlast, UInt8.zero_add]
  apply Turns.counted (UInt8.ofNat a) _ (Turns.done _)
  intro k hk
  have hproduct : lacking (k + 1) + UInt8.ofNat b = lacking k := by
    simp only [lacking]
    rw [UInt8.ofNat_add]
    grind
  apply Turns.moveRight (moveRight_around _)
  apply Turns.increments
  apply Turns.transfer
  rw [UInt8.zero_add, hproduct]
  apply Turns.moveLeft (moveLeft_around _)
  apply Turns.decrement
  rw [decrement_around, UInt8.add_sub_cancel]
  exact Turns.done _

end Block

/-- The text with `a` plus signs, and `b` plus signs in the loop behind them. -/
def Source.multiplication (a b : Nat) : String :=
  String.ofList (List.replicate a '+') ++ "[>" ++ String.ofList (List.replicate b '+') ++
    "[>+<-]<-]"

namespace Instruction

theorem ofSource_plus (n : Nat) :
    ofSource (String.ofList (List.replicate n '+')) = List.replicate n .increment := by
  have hspelling : List.replicate n '+' = (List.replicate n increment).map toChar := by
    rw [List.map_replicate]
    rfl
  rw [hspelling, ofSource_ofList_map_toChar]

theorem ofSource_multiplication (a b : Nat) :
    ofSource (Source.multiplication a b) = (Block.multiplication a b).code := by
  have hfront : ofSource "[>" = [.loopStart, .moveRight] := rfl
  have hback : ofSource "[>+<-]<-]" =
      [.loopStart, .moveRight, .increment, .moveLeft, .decrement, .loopEnd, .moveLeft, .decrement,
        .loopEnd] := rfl
  rw [Source.multiplication, ofSource_append, ofSource_append, ofSource_append, ofSource_plus,
    ofSource_plus, hfront, hback]
  simp [Block.multiplication, Block.transfer, Block.code, Block.code_increments,
    Action.toInstruction]

end Instruction

/-- The program multiplies, for all numbers of plus signs, on every new tape with three cells or
more.  Its run comes to an end with the product modulo 256 in the third cell, zero in all the other
cells and the pointer at the first one.  The only stream call is the flush at the end, so nothing is
read or written, and nothing fails unless that flush does. -/
theorem Machine.run_multiplication (a b : Nat) {config : Config} {m : Machine}
    (hnew : new config = .ok m) (hthree : 3 ≤ config.tapeLength.val) :
    ∃ p, Program.parse (Source.multiplication a b) = .ok p ∧
      ∀ s : Streams, ∃ fuel r, m.run p config.eof fuel s = some r ∧
        (s.flushes.headD .done = .done → r.fault = none) ∧
        r.events = [.flush (s.flushes.headD .done)] ∧ r.output = [] ∧
        r.machine.tape.pointer = 0 ∧ r.machine.tape.length = config.tapeLength.val ∧
        ∃ product : UInt8, product.toNat = a * b % 256 ∧
          ∀ i < config.tapeLength.val,
            r.machine.tape.cells[i]? = some (if i = 2 then product else 0) := by
  obtain ⟨tape, hallocate, rfl⟩ := new_eq_ok_iff.1 hnew
  obtain ⟨more, hlength, rfl⟩ := Tape.exists_around_of_allocate? hallocate hthree
  obtain ⟨p, hparse, hp, hcode⟩ := Block.exists_parse (Instruction.ofSource_multiplication a b)
  refine ⟨p, hparse, fun s => ?_⟩
  let product : UInt8 := UInt8.ofNat (a * b)
  let cells : List UInt8 := 0 :: 0 :: product :: List.replicate more 0
  obtain ⟨steps, hexecutes⟩ : ∃ steps, Block.Executes config.eof (Block.multiplication a b)
      { tape := Tape.around config.addressing [] 0 (0 :: 0 :: List.replicate more 0), streams := s }
      { tape := Tape.around config.addressing [] 0 cells.tail, streams := s, steps } :=
    Block.turns_multiplication a b _ s 0 []
  obtain ⟨fuel, r, hr, hend⟩ := hexecutes.exists_run hp hcode
  have hevents : r.events = [.flush (s.flushes.headD .done)] := hend.events_eq
  have hcells : r.machine.tape.cells = cells.toArray := by
    rw [hend.tape_eq]
    rfl
  refine ⟨fuel, r, hr, hend.fault_eq_none, hevents, ?_, ?_, ?_, product, ?_, ?_⟩
  · rw [Report.output, hevents]
    rfl
  · rw [hend.tape_eq]
    rfl
  · rw [Tape.length, hcells, hlength, List.size_toArray]
    simp only [cells, List.length_cons, List.length_replicate]
  · exact UInt8.toNat_ofNat'
  · intro i hi
    rw [hcells, List.getElem?_toArray]
    rcases i with _ | _ | _ | i
    · rfl
    · rfl
    · rfl
    · have hlt : i < more := by omega
      have htail : cells[i + 3]? = (List.replicate more (0 : UInt8))[i]? := rfl
      rw [htail, List.getElem?_replicate_of_lt hlt, if_neg (by omega)]

/-- Neither factor fits into a cell, so that 2 and 3 are multiplied, and the tape has no fourth
cell. -/
theorem Machine.run_multiplication_wrapped :
    let config : Config := { tapeLength := ⟨3, by decide, by decide⟩, addressing := .circular }
    Source.multiplication 2 3 = "++[>+++[>+<-]<-]" ∧
      ∃ (p : Program) (m : Machine) (fuel : Nat) (r : Report),
        Program.parse (Source.multiplication 258 515) = .ok p ∧ new config = .ok m ∧
        3 ≤ config.tapeLength.val ∧ m.run p .zero fuel {} = some r ∧ r.fault = none ∧
        r.events = [.flush .done] ∧ r.machine.tape.pointer = 0 ∧
        r.machine.tape.cells[0]? = some 0 ∧ r.machine.tape.cells[1]? = some 0 ∧
        r.machine.tape.cells[2]? = some 6 := by
  intro config
  let m : Machine := { tape := ⟨#[0, 0, 0], 0, .circular, by decide⟩ }
  have hnew : new config = .ok m := by rfl
  have hthree : 3 ≤ config.tapeLength.val := by decide
  obtain ⟨p, hparse, hruns⟩ := run_multiplication 258 515 hnew hthree
  obtain ⟨fuel, r, hr, hfault, hevents, -, hpointer, -, product, hproduct, hcells⟩ := hruns {}
  have hsix : product = 6 := UInt8.toNat_inj.1 hproduct
  have hthird : r.machine.tape.cells[2]? = some 6 := hsix ▸ hcells 2 (by decide)
  exact ⟨by decide, p, m, fuel, r, hparse, hnew, hthree, hr, hfault rfl, hevents, hpointer,
    hcells 0 (by decide), hcells 1 (by decide), hthird⟩

end TapeMachine
