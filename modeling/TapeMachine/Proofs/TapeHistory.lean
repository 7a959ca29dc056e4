import TapeMachine.Proofs.Circle

/-!
# The history of a tape

Whatever is done to a tape, it keeps its length and its addressing, and the pointer stays on it.
Where the pointer stands and what the cells hold can be told from the history alone.  The pointer
is where the moves took it, counted round the circle if the tape is circular; on a bounded tape
only the moves that were not refused count.  A cell holds the value that was last set in it, and
what has been added and subtracted there since.
-/

namespace TapeMachine

namespace Tape

/-- What can be done to a tape. -/
inductive Operation where
  | moveRight
  | moveLeft
  | increment
  | decrement
  | set (value : UInt8)
  deriving DecidableEq

namespace Operation

/-- The tape that the operation leads to, or the cell that is missing. -/
def perform (t : Tape) : Operation → Except Int Tape
  | moveRight => t.moveRight
  | moveLeft => t.moveLeft
  | increment => .ok t.increment
  | decrement => .ok t.decrement
  | set value => .ok (t.set value)

/-- By how many cells the operation moves the pointer to the right. -/
def advance : Operation → Int
  | moveRight => 1
  | moveLeft => -1
  | _ => 0

/-- What the operation makes of the value in the cell at which it is done. -/
def change : Operation → UInt8 → UInt8
  | moveRight, value => value
  | moveLeft, value => value
  | increment, value => value + 1
  | decrement, value => value - 1
  | set value, _ => value

/-- How much the operation adds to the value in the cell, unless it sets it. -/
def amount : Operation → Int
  | increment => 1
  | decrement => -1
  | _ => 0

/-- What operations done in the same cell, one after the other, make of its value. -/
def changeAll (operations : List Operation) (value : UInt8) : UInt8 :=
  operations.foldl (fun value operation => operation.change value) value

theorem changeAll_concat (operations : List Operation) (operation : Operation) (value : UInt8) :
    changeAll (operations ++ [operation]) value =
      operation.change (changeAll operations value) := by
  rw [changeAll, List.foldl_append]
  rfl

end Operation

/-- An operation that was tried, the cell at which it was, and, if it was refused, the missing
cell. -/
structure Entry where
  operation : Operation
  pointer : Nat
  missed : Option Int
  deriving DecidableEq

/-- Whether this is the given operation, not refused. -/
def Entry.completes (operation : Operation) (e : Entry) : Bool :=
  e.operation = operation && e.missed.isNone

def entry (t : Tape) (operation : Operation) : Entry where
  operation := operation
  pointer := t.pointer
  missed :=
    match operation.perform t with
    | .ok _ => none
    | .error missed => some missed

/-- The tape after an operation.  If the operation is refused, nothing changes. -/
def after (t : Tape) (operation : Operation) : Tape :=
  match operation.perform t with
  | .ok next => next
  | .error _ => t

def afterAll (t : Tape) (operations : List Operation) : Tape :=
  operations.foldl after t

/-- What happens to a tape when the operations are tried one after the other. -/
def history (t : Tape) : List Operation → List Entry
  | [] => []
  | operation :: rest => t.entry operation :: (t.after operation).history rest

/-- By how many cells the pointer was moved to the right: moves to the right less moves to the left,
without those that were refused. -/
def travelled (entries : List Entry) : Int :=
  (entries.countP (Entry.completes .moveRight) : Int) - entries.countP (Entry.completes .moveLeft)

/-- The operations that were done while the pointer was at cell `i`. -/
def operationsOn (i : Nat) (entries : List Entry) : List Operation :=
  entries.filterMap fun e => if e.pointer = i then some e.operation else none

/-- Of the given operations `since` are those behind the last one that sets a value, and `base` is
that value.  If none of them sets a value, they are all in `since`, and `base` is zero. -/
def LastSet (operations : List Operation) (base : UInt8) (since : List Operation) : Prop :=
  (∀ value, .set value ∉ since) ∧
    ((operations = since ∧ base = 0) ∨ ∃ before, operations = before ++ .set base :: since)

section Single

variable {t t' : Tape} {operation : Operation} {missed : Int} {config : Config}

/-! ## One operation -/

theorem after_of_perform (h : operation.perform t = .ok t') : t.after operation = t' := by
  rw [after, h]

theorem after_of_refused (h : operation.perform t = .error missed) : t.after operation = t := by
  rw [after, h]

theorem MadeFor.perform (ht : t.MadeFor config) (h : operation.perform t = .ok t') :
    t'.MadeFor config := by
  cases operation with
  | moveRight => exact ht.moveRight h
  | moveLeft => exact ht.moveLeft h
  | increment | decrement | set =>
      obtain rfl := Except.ok.inj h
      exact ht.set _

theorem MadeFor.after (ht : t.MadeFor config) (operation : Operation) :
    (t.after operation).MadeFor config := by
  cases h : operation.perform t with
  | ok next =>
      rw [after_of_perform h]
      exact ht.perform h
  | error missed => rwa [after_of_refused h]

theorem cells_of_moveRight (h : t.moveRight = .ok t') : t'.cells = t.cells := by
  unfold moveRight at h
  split at h
  · obtain rfl := Except.ok.inj h
    rfl
  · split at h
    · contradiction
    · obtain rfl := Except.ok.inj h
      rfl

theorem cells_of_moveLeft (h : t.moveLeft = .ok t') : t'.cells = t.cells := by
  unfold moveLeft at h
  split at h
  · split at h
    · contradiction
    · obtain rfl := Except.ok.inj h
      rfl
  · obtain rfl := Except.ok.inj h
    rfl

theorem getElem?_cells_set_change (t : Tape) (operation : Operation) (i : Nat) :
    (t.set (operation.change t.get)).cells[i]? =
      if t.pointer = i then t.cells[i]?.map operation.change else t.cells[i]? := by
  rw [cells_set, Array.getElem?_set]
  split
  · next hi =>
      subst hi
      rw [getElem?_pointer, Option.map_some]
  · rfl

theorem getElem?_cells_of_perform (h : operation.perform t = .ok t') (i : Nat) :
    t'.cells[i]? = if t.pointer = i then t.cells[i]?.map operation.change else t.cells[i]? := by
  have hmove {move : Operation} (hchange : move.change = id) (hcells : t'.cells = t.cells) :
      t'.cells[i]? = if t.pointer = i then t.cells[i]?.map move.change else t.cells[i]? := by
    rw [hcells, hchange, Option.map_id, id, ite_self]
  cases operation with
  | moveRight => exact hmove rfl (cells_of_moveRight h)
  | moveLeft => exact hmove rfl (cells_of_moveLeft h)
  | increment =>
      obtain rfl := Except.ok.inj h
      exact getElem?_cells_set_change t .increment i
  | decrement =>
      obtain rfl := Except.ok.inj h
      exact getElem?_cells_set_change t .decrement i
  | set value =>
      obtain rfl := Except.ok.inj h
      exact getElem?_cells_set_change t (.set value) i

/-- Only a move can be refused, and it has nothing to do with the cells. -/
theorem change_of_refused (h : operation.perform t = .error missed) : operation.change = id := by
  cases operation with
  | moveRight | moveLeft => rfl
  | increment | decrement | set => contradiction

theorem getElem?_cells_after (t : Tape) (operation : Operation) (i : Nat) :
    (t.after operation).cells[i]? =
      if t.pointer = i then t.cells[i]?.map operation.change else t.cells[i]? := by
  cases h : operation.perform t with
  | ok next => rw [after_of_perform h, getElem?_cells_of_perform h]
  | error missed =>
      rw [after_of_refused h, change_of_refused h, Option.map_id, id, ite_self]

theorem pointer_roll_modEq (t : Tape) (x : Int) :
    ((t.roll x).pointer : Int) ≡ t.pointer + x [ZMOD t.length] :=
  onCircle_modEq t.length_pos _

theorem exists_perform_of_circular (h : t.addressing = .circular) (operation : Operation) :
    ∃ t', operation.perform t = .ok t' ∧
      (t'.pointer : Int) ≡ t.pointer + operation.advance [ZMOD t.length] := by
  have hstill : (t.pointer : Int) ≡ t.pointer + 0 [ZMOD t.length] := by rw [add_zero]
  cases operation with
  | moveRight => exact ⟨_, moveRight_of_circular h, pointer_roll_modEq t 1⟩
  | moveLeft => exact ⟨_, moveLeft_of_circular h, pointer_roll_modEq t (-1)⟩
  | increment | decrement | set => exact ⟨_, rfl, hstill⟩

theorem pointer_of_perform_of_bounded (h : t.addressing = .bounded)
    (ht' : operation.perform t = .ok t') : (t'.pointer : Int) = t.pointer + operation.advance := by
  cases operation with
  | moveRight =>
      simp only [Operation.perform, moveRight, h] at ht'
      split at ht'
      · obtain rfl := Except.ok.inj ht'
        exact Nat.cast_succ t.pointer
      · contradiction
  | moveLeft =>
      simp only [Operation.perform, moveLeft, h] at ht'
      split at ht'
      · contradiction
      · next hinside =>
          obtain rfl := Except.ok.inj ht'
          change ((t.pointer - 1 : Nat) : Int) = t.pointer + -1
          omega
  | increment | decrement | set =>
      obtain rfl := Except.ok.inj ht'
      exact (add_zero _).symm

end Single

/-- The number of cells fits into a signed word, and so does the number of the cell behind the last
one. -/
theorem lt_of_allocate? {length : CellCount} {addressing : Addressing} {t : Tape}
    (h : allocate? length addressing = some t) : length.val < 2 ^ 63 := by
  unfold allocate? at h
  split at h
  · next hle => exact hle.trans_lt (by decide)
  · contradiction

section Sequence

variable {t : Tape} {config : Config}

/-! ## Any number of operations -/

@[simp] theorem afterAll_nil (t : Tape) : t.afterAll [] = t := rfl

@[simp] theorem history_nil (t : Tape) : t.history [] = [] := rfl

theorem afterAll_concat (t : Tape) (operations : List Operation) (operation : Operation) :
    t.afterAll (operations ++ [operation]) = (t.afterAll operations).after operation := by
  rw [afterAll, List.foldl_append]
  rfl

theorem history_concat (t : Tape) (operations : List Operation) (operation : Operation) :
    t.history (operations ++ [operation]) =
      t.history operations ++ [(t.afterAll operations).entry operation] := by
  induction operations generalizing t with
  | nil => rfl
  | cons first rest ih =>
      rw [List.cons_append, history, ih, history, List.cons_append]
      rfl

theorem operationsOn_append (i : Nat) (entries more : List Entry) :
    operationsOn i (entries ++ more) = operationsOn i entries ++ operationsOn i more :=
  List.filterMap_append

theorem MadeFor.afterAll (ht : t.MadeFor config) (operations : List Operation) :
    (t.afterAll operations).MadeFor config := by
  induction operations using List.reverseRecOn with
  | nil => exact ht
  | append_singleton operations operation ih =>
      rw [afterAll_concat]
      exact ih.after operation

/-- What a cell holds depends on the operations that were done on it, and on nothing else. -/
theorem getElem?_cells_afterAll (t : Tape) (operations : List Operation) (i : Nat) :
    (t.afterAll operations).cells[i]? =
      t.cells[i]?.map (Operation.changeAll (operationsOn i (t.history operations))) := by
  induction operations using List.reverseRecOn with
  | nil => exact Option.map_id'.symm
  | append_singleton operations operation ih =>
      have hentry : operationsOn i [(t.afterAll operations).entry operation] =
          if (t.afterAll operations).pointer = i then [operation] else [] := by
        by_cases hi : (t.afterAll operations).pointer = i <;> simp [operationsOn, entry, hi]
      rw [afterAll_concat, getElem?_cells_after, ih, history_concat, operationsOn_append, hentry]
      split
      · rw [Option.map_map]
        refine Option.map_congr fun value _ => ?_
        exact (Operation.changeAll_concat _ operation value).symm
      · rw [List.append_nil]

theorem missed_of_circular (ht : t.MadeFor config) (hcircular : config.addressing = .circular)
    (operations : List Operation) : ∀ e ∈ t.history operations, e.missed = none := by
  induction operations generalizing t with
  | nil => simp
  | cons operation rest ih =>
      obtain ⟨next, hnext, -⟩ :=
        exists_perform_of_circular (ht.addressing_eq.trans hcircular) operation
      rw [history, List.forall_mem_cons]
      refine ⟨?_, ih (ht.after operation)⟩
      rw [entry, hnext]

theorem pointer_afterAll_of_circular (ht : t.MadeFor config)
    (hcircular : config.addressing = .circular) (operations : List Operation) :
    ((t.afterAll operations).pointer : Int) ≡
      t.pointer + (operations.count .moveRight - operations.count .moveLeft)
        [ZMOD config.tapeLength.val] := by
  induction operations using List.reverseRecOn with
  | nil => simp [Int.ModEq]
  | append_singleton operations operation ih =>
      have hmade : (t.afterAll operations).MadeFor config := ht.afterAll operations
      obtain ⟨next, hnext, hpointer⟩ :=
        exists_perform_of_circular (hmade.addressing_eq.trans hcircular) operation
      have hcount : ((operations ++ [operation]).count .moveRight : Int) -
            (operations ++ [operation]).count .moveLeft =
          (operations.count .moveRight - operations.count .moveLeft) + operation.advance := by
        cases operation <;> simp [Operation.advance] <;> ring
      rw [hmade.length_eq] at hpointer
      rw [afterAll_concat, after_of_perform hnext, hcount, ← add_assoc]
      exact hpointer.trans (ih.add_right _)

theorem pointer_afterAll_of_bounded (ht : t.MadeFor config)
    (hbounded : config.addressing = .bounded) (operations : List Operation) :
    ((t.afterAll operations).pointer : Int) = t.pointer + travelled (t.history operations) := by
  induction operations using List.reverseRecOn with
  | nil => simp [travelled]
  | append_singleton operations operation ih =>
      have hmode : (t.afterAll operations).addressing = .bounded :=
        (ht.afterAll operations).addressing_eq.trans hbounded
      rw [afterAll_concat, history_concat]
      cases h : operation.perform (t.afterAll operations) with
      | ok next =>
          rw [after_of_perform h, pointer_of_perform_of_bounded hmode h, ih]
          cases operation <;>
            simp [travelled, List.countP_append, entry, h, Entry.completes, Operation.advance] <;>
            ring
      | error missed =>
          rw [after_of_refused h, ih]
          simp [travelled, List.countP_append, entry, h, Entry.completes]

end Sequence

/-! ## The value of a cell -/

section Value

variable {operations : List Operation} {base : UInt8} {since : List Operation}

theorem exists_lastSet (operations : List Operation) :
    ∃ base since, LastSet operations base since := by
  induction operations using List.reverseRecOn with
  | nil => exact ⟨0, [], by simp, .inl ⟨rfl, rfl⟩⟩
  | append_singleton operations operation ih =>
      obtain ⟨base, since, hsince, hlast⟩ := ih
      by_cases hset : ∃ value, operation = .set value
      · obtain ⟨value, rfl⟩ := hset
        exact ⟨value, [], by simp, .inr ⟨operations, rfl⟩⟩
      · refine ⟨base, since ++ [operation], ?_, ?_⟩
        · intro value hmem
          rcases List.mem_append.1 hmem with hmem | hmem
          · exact hsince value hmem
          · exact hset ⟨value, (List.mem_singleton.1 hmem).symm⟩
        · rcases hlast with ⟨rfl, rfl⟩ | ⟨before, rfl⟩
          · exact .inl ⟨rfl, rfl⟩
          · exact .inr ⟨before, by rw [List.append_assoc, List.cons_append]⟩

/-- Before the last value is set, nothing matters. -/
theorem LastSet.changeAll_eq (h : LastSet operations base since) :
    Operation.changeAll operations 0 = Operation.changeAll since base := by
  rcases h.2 with ⟨rfl, rfl⟩ | ⟨before, rfl⟩
  · rfl
  · rw [Operation.changeAll, List.foldl_append]
    rfl

theorem toNat_add_one_modEq (value : UInt8) :
    ((value + 1).toNat : Int) ≡ value.toNat + 1 [ZMOD 256] := by
  have hmod : (value + 1).toNat = (value.toNat + 1) % 256 := UInt8.toNat_add value 1
  rw [hmod, Int.natCast_mod]
  exact Int.mod_modEq _ _

theorem toNat_sub_one_modEq (value : UInt8) :
    ((value - 1).toNat : Int) ≡ value.toNat - 1 [ZMOD 256] := by
  have hback := toNat_add_one_modEq (value - 1)
  rw [UInt8.sub_add_cancel] at hback
  have hsub := hback.symm.sub_right 1
  rwa [add_sub_cancel_right] at hsub

theorem toNat_change_modEq {operation : Operation} (h : ∀ value, operation ≠ .set value)
    (value : UInt8) :
    ((operation.change value).toNat : Int) ≡ value.toNat + operation.amount [ZMOD 256] := by
  cases operation with
  | moveRight | moveLeft => simp [Operation.change, Operation.amount]
  | increment => exact toNat_add_one_modEq value
  | decrement => exact toNat_sub_one_modEq value
  | set value => exact absurd rfl (h value)

theorem toNat_changeAll_modEq (hsince : ∀ value, .set value ∉ since) (base : UInt8) :
    ((Operation.changeAll since base).toNat : Int) ≡
      base.toNat + since.count .increment - since.count .decrement [ZMOD 256] := by
  induction since using List.reverseRecOn with
  | nil => simp [Operation.changeAll]
  | append_singleton since operation ih =>
      have hrest := ih fun value hmem => hsince value (List.mem_append_left _ hmem)
      have hset (value : UInt8) : operation ≠ .set value := by
        rintro rfl
        exact hsince value (List.mem_append_right _ List.mem_cons_self)
      have hcount : (base.toNat + (since ++ [operation]).count .increment -
            (since ++ [operation]).count .decrement : Int) =
          base.toNat + since.count .increment - since.count .decrement + operation.amount := by
        cases operation <;> simp [Operation.amount] <;> ring
      rw [Operation.changeAll_concat, hcount]
      exact (toNat_change_modEq hset _).trans (hrest.add_right _)

end Value

variable {length : CellCount} {addressing : Addressing} {t : Tape}

/-- The tape after any operations, described by its history.  It has the length and the addressing
that it was made with, and the pointer is on it; no number of cells that can be had is too large for
a signed word.  If the tape is circular, no move was refused, and the pointer stands as many cells
round from the first as there were moves to the right more than to the left.  If it is bounded, only
the completed moves count; the moves that are refused are the ones off the last cell and off the
first one, which name the cell behind the last and the cell in front of the first.  A refused
operation changes nothing.  Each cell holds, modulo 256, the value last set in it, or zero, and what
was added and subtracted there since. -/
theorem tape_of_history (h : allocate? length addressing = some t) (operations : List Operation) :
    let t' := t.afterAll operations
    let entries := t.history operations
    t'.length = length.val ∧ t'.addressing = addressing ∧ t'.pointer < length.val ∧
      length.val < 2 ^ 63 ∧
      (addressing = .circular →
        (∀ e ∈ entries, e.missed = none) ∧
          (t'.pointer : Int) ≡ operations.count .moveRight - operations.count .moveLeft
            [ZMOD length.val]) ∧
      (addressing = .bounded →
        (t'.pointer : Int) = travelled entries ∧
          (∀ missed, t'.moveRight = .error missed ↔
            t'.pointer = length.val - 1 ∧ missed = length.val) ∧
          ∀ missed, t'.moveLeft = .error missed ↔ t'.pointer = 0 ∧ missed = -1) ∧
      (∀ operation missed, operation.perform t' = .error missed → t'.after operation = t') ∧
      ∀ i < length.val, ∃ value base since, t'.cells[i]? = some value ∧
        LastSet (operationsOn i entries) base since ∧
        (value.toNat : Int) ≡ base.toNat + since.count .increment - since.count .decrement
          [ZMOD 256] := by
  intro t' entries
  have ht : t.MadeFor { tapeLength := length, addressing } := madeFor_allocate? h
  have ht' : t'.MadeFor { tapeLength := length, addressing } := ht.afterAll operations
  have hlength : t'.length = length.val := ht'.length_eq
  obtain ⟨hpointer, hcells⟩ := zeros_of_allocate? h
  have hlt : t'.pointer < length.val := hlength ▸ t'.pointer_lt
  refine ⟨hlength, ht'.addressing_eq, hlt, lt_of_allocate? h, ?_, ?_, ?_, ?_⟩
  · intro hcircular
    have hround := pointer_afterAll_of_circular ht hcircular operations
    rw [hpointer, Nat.cast_zero, zero_add] at hround
    exact ⟨missed_of_circular ht hcircular operations, hround⟩
  · intro hbounded
    have hmode : t'.addressing = .bounded := ht'.addressing_eq.trans hbounded
    refine ⟨?_, ?_, ?_⟩
    · have hplace := pointer_afterAll_of_bounded ht hbounded operations
      rwa [hpointer, Nat.cast_zero, zero_add] at hplace
    · intro missed
      have hlast : t'.pointer + 1 = length.val ↔ t'.pointer = length.val - 1 := by omega
      rw [moveRight_eq_error_iff, hlength, hlast]
      exact and_iff_right hmode
    · intro missed
      rw [moveLeft_eq_error_iff]
      exact and_iff_right hmode
  · intro operation missed hrefused
    exact after_of_refused hrefused
  · intro i hi
    obtain ⟨base, since, hlast⟩ := exists_lastSet (operationsOn i entries)
    have hzero : t.cells[i]? = some 0 := hcells i (ht.length_eq ▸ hi)
    refine ⟨Operation.changeAll since base, base, since, ?_, hlast,
      toNat_changeAll_modEq hlast.1 base⟩
    rw [getElem?_cells_afterAll, hzero, Option.map_some, hlast.changeAll_eq]

/-- On two cells, moves are refused at both ends, and the second cell overflows after it was set.
On a circle of three, five moves to the left lead to the second cell. -/
theorem tape_of_history_at_the_edges :
    (∃ (t : Tape) (operations : List Operation),
      allocate? ⟨2, by decide, by decide⟩ .bounded = some t ∧
      operations = [.moveLeft, .decrement, .moveRight, .decrement, .set 255, .increment,
        .increment, .moveRight] ∧
      (t.history operations).map Entry.missed =
        [some (-1), none, none, none, none, none, none, some 2] ∧
      ((t.afterAll operations).pointer : Int) = travelled (t.history operations) ∧
      (t.afterAll operations).moveRight = .error 2 ∧
      ∃ value base since, (t.afterAll operations).cells[1]? = some value ∧
        LastSet (operationsOn 1 (t.history operations)) base since ∧
        (value.toNat : Int) ≡ base.toNat + since.count .increment - since.count .decrement
          [ZMOD 256] ∧ value = 1) ∧
    ∃ t : Tape, allocate? ⟨3, by decide, by decide⟩ .circular = some t ∧
      (∀ e ∈ t.history (List.replicate 5 .moveLeft), e.missed = none) ∧
      ((t.afterAll (List.replicate 5 .moveLeft)).pointer : Int) ≡ -5 [ZMOD 3] := by
  constructor
  · let t : Tape := ⟨#[0, 0], 0, .bounded, by decide⟩
    let operations : List Operation := [.moveLeft, .decrement, .moveRight, .decrement, .set 255,
      .increment, .increment, .moveRight]
    have ht : allocate? ⟨2, by decide, by decide⟩ .bounded = some t := by decide
    obtain ⟨-, -, -, -, -, hbounded, -, hcells⟩ := tape_of_history ht operations
    obtain ⟨hpointer, hright, -⟩ := hbounded rfl
    obtain ⟨value, base, since, hvalue, hlast, hmod⟩ := hcells 1 (by decide)
    have hone : value = 1 := by
      have hcell : (t.afterAll operations).cells[1]? = some 1 := by decide
      exact Option.some.inj (hvalue.symm.trans hcell)
    exact ⟨t, operations, ht, rfl, by decide, hpointer, (hright 2).2 (by decide), value, base,
      since, hvalue, hlast, hmod, hone⟩
  · obtain ⟨t, ht⟩ : ∃ t, allocate? ⟨3, by decide, by decide⟩ .circular = some t := ⟨_, rfl⟩
    obtain ⟨-, -, -, -, hcircular, -, -, -⟩ := tape_of_history ht (List.replicate 5 .moveLeft)
    obtain ⟨hmissed, hpointer⟩ := hcircular rfl
    exact ⟨t, ht, hmissed, hpointer⟩

end Tape

end TapeMachine
