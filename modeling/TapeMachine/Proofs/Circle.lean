import Mathlib.Data.Int.ModEq
import Mathlib.Tactic.Ring
import TapeMachine.Proofs.Simulation
import TapeMachine.Proofs.TapeMoves

/-!
# Circular tapes

The cells of a circular tape have no first one and no direction of their own.  A machine cannot tell
where on the circle it began, and if right and left are exchanged in its program it cannot tell which
way round it goes.  So there is one simulation for all symmetries of the circle: the cells are
renumbered, either in the same sense or in the opposite one, and the moves of the program follow.

Cells are numbered by integers, of which each stands for the cell that is reached by going round.
-/

namespace TapeMachine

/-- The position of a cell on a circle of `n` cells that is given by its number. -/
def onCircle (n : Nat) (number : Int) : Nat :=
  (number % n).toNat

section Numbers

variable {n : Nat} {x y : Int}

theorem natCast_onCircle (hn : 0 < n) (x : Int) : (onCircle n x : Int) = x % n :=
  Int.toNat_of_nonneg (Int.emod_nonneg x (by omega))

theorem onCircle_lt (hn : 0 < n) (x : Int) : onCircle n x < n := by
  have hlt : x % n < n := Int.emod_lt_of_pos x (by omega)
  rw [← natCast_onCircle hn] at hlt
  exact Int.ofNat_lt.1 hlt

theorem onCircle_natCast {i : Nat} (hi : i < n) : onCircle n i = i := by
  rw [onCircle, Int.emod_eq_of_lt (Int.natCast_nonneg i) (Int.ofNat_lt.2 hi), Int.toNat_natCast]

theorem onCircle_eq_iff (hn : 0 < n) : onCircle n x = onCircle n y ↔ x ≡ y [ZMOD n] := by
  rw [Int.ModEq, ← natCast_onCircle hn, ← natCast_onCircle hn, Int.natCast_inj]

theorem onCircle_modEq (hn : 0 < n) (x : Int) : (onCircle n x : Int) ≡ x [ZMOD n] := by
  rw [natCast_onCircle hn]
  exact Int.mod_modEq x n

end Numbers

/-- The sense in which one circle is numbered, compared with another one. -/
inductive Sense where
  | same
  | opposite
  deriving DecidableEq

namespace Sense

def sign : Sense → Int
  | same => 1
  | opposite => -1

/-- The move by one cell in this sense. -/
def move : Sense → Action
  | same => .moveRight
  | opposite => .moveLeft

def reverse : Sense → Sense
  | same => opposite
  | opposite => same

theorem sign_reverse (sense : Sense) : sense.reverse.sign = -sense.sign := by
  cases sense <;> rfl

/-- The action that has on a circle numbered in this sense the effect of the given one. -/
def turn (sense : Sense) : Action → Action
  | .moveRight => sense.move
  | .moveLeft => sense.reverse.move
  | action => action

/-- Where a cell lies on a circle that is numbered in this sense and begins elsewhere. -/
def place (sense : Sense) (n : Nat) (offset : Int) (i : Nat) : Nat :=
  onCircle n (sense.sign * i + offset)

@[simp] theorem turn_same : same.turn = id := by
  funext action
  cases action <;> rfl

variable {n : Nat} (sense : Sense) (offset : Int)

theorem sign_mul_sign : sense.sign * sense.sign = 1 := by
  cases sense <;> rfl

theorem place_lt (hn : 0 < n) (i : Nat) : sense.place n offset i < n :=
  onCircle_lt hn _

theorem place_injective {i j : Nat} (hi : i < n) (hj : j < n)
    (h : sense.place n offset i = sense.place n offset j) : i = j := by
  have hmod : sense.sign * i ≡ sense.sign * j [ZMOD n] :=
    Int.ModEq.add_right_cancel' offset ((onCircle_eq_iff (Nat.zero_lt_of_lt hi)).1 h)
  have hsame : (i : Int) ≡ j [ZMOD n] := by
    have hmul := hmod.mul_left sense.sign
    rwa [← mul_assoc, ← mul_assoc, sign_mul_sign, one_mul, one_mul] at hmul
  rw [← onCircle_natCast hi, ← onCircle_natCast hj]
  exact (onCircle_eq_iff (Nat.zero_lt_of_lt hi)).2 hsame

/-- To go `x` cells further on one circle is to go as far in its sense on the other. -/
theorem place_onCircle_add (hn : 0 < n) (i : Nat) (x : Int) :
    sense.place n offset (onCircle n (i + x)) =
      onCircle n (sense.place n offset i + sense.sign * x) := by
  refine (onCircle_eq_iff hn).2 ?_
  calc sense.sign * (onCircle n (i + x) : Int) + offset
      ≡ sense.sign * (i + x) + offset [ZMOD n] :=
        ((onCircle_modEq hn _).mul_left _).add_right _
    _ = (sense.sign * i + offset) + sense.sign * x := by ring
    _ ≡ sense.place n offset i + sense.sign * x [ZMOD n] :=
        ((onCircle_modEq hn _).symm).add_right _

end Sense

namespace Tape

theorem length_pos (t : Tape) : 0 < t.length :=
  Nat.zero_lt_of_lt t.pointer_lt

/-- The tape with its pointer `x` cells further round the circle. -/
def roll (t : Tape) (x : Int) : Tape :=
  t.moveTo (onCircle t.length (t.pointer + x)) (onCircle_lt t.length_pos _)

theorem moveTo_eq_roll {t : Tape} {pointer : Nat} {x : Int} (h : pointer < t.length)
    (hmod : (pointer : Int) ≡ t.pointer + x [ZMOD t.length]) : t.moveTo pointer h = t.roll x := by
  have hpointer : pointer = onCircle t.length (t.pointer + x) :=
    (onCircle_natCast h).symm.trans ((onCircle_eq_iff t.length_pos).2 hmod)
  subst hpointer
  rfl

@[simp] theorem roll_zero (t : Tape) : t.roll 0 = t := by
  refine (moveTo_eq_roll t.pointer_lt ?_).symm
  rw [add_zero]

theorem roll_roll (t : Tape) (x y : Int) : (t.roll x).roll y = t.roll (x + y) := by
  refine moveTo_eq_roll (onCircle_lt t.length_pos _) ?_
  calc (onCircle t.length ((t.roll x).pointer + y) : Int)
      ≡ (t.roll x).pointer + y [ZMOD t.length] := onCircle_modEq t.length_pos _
    _ ≡ (t.pointer + x) + y [ZMOD t.length] := (onCircle_modEq t.length_pos _).add_right y
    _ = t.pointer + (x + y) := add_assoc _ _ _

variable {t t' : Tape}

theorem moveRight_of_circular (h : t.addressing = .circular) : t.moveRight = .ok (t.roll 1) := by
  unfold moveRight
  split
  case isTrue hinside =>
    exact congrArg Except.ok (moveTo_eq_roll hinside (by rw [Nat.cast_add, Nat.cast_one]))
  case isFalse hlast =>
    -- behind the last cell comes cell 0, whose number may as well be the length
    have hpointer : t.pointer + 1 = t.length := by
      have hlt : t.pointer < t.length := t.pointer_lt
      omega
    rw [h]
    refine congrArg Except.ok (moveTo_eq_roll t.length_pos ?_)
    calc ((0 : Nat) : Int) ≡ t.length [ZMOD t.length] := Int.modulus_modEq_zero.symm
      _ = t.pointer + 1 := by rw [← hpointer, Nat.cast_add, Nat.cast_one]

theorem moveLeft_of_circular (h : t.addressing = .circular) : t.moveLeft = .ok (t.roll (-1)) := by
  unfold moveLeft
  split
  case isTrue hfirst =>
    rw [h]
    refine congrArg Except.ok (moveTo_eq_roll _ ?_)
    calc ((t.length - 1 : Nat) : Int) = t.length + -1 := by
          rw [Nat.cast_sub t.length_pos, Nat.cast_one, sub_eq_add_neg]
      _ ≡ 0 + -1 [ZMOD t.length] := Int.modulus_modEq_zero.add_right (-1)
      _ = t.pointer + -1 := by rw [hfirst, Nat.cast_zero]
  case isFalse hinside =>
    refine congrArg Except.ok (moveTo_eq_roll _ ?_)
    rw [Nat.cast_sub (Nat.one_le_iff_ne_zero.2 hinside), Nat.cast_one, sub_eq_add_neg]

theorem cells_set (t : Tape) (value : UInt8) :
    (t.set value).cells = t.cells.set t.pointer value t.pointer_lt := rfl

theorem getElem?_pointer (t : Tape) : t.cells[t.pointer]? = some t.get :=
  Array.getElem?_eq_getElem t.pointer_lt

theorem zeros_of_allocate? {length : CellCount} {addressing : Addressing}
    (h : allocate? length addressing = some t) :
    t.pointer = 0 ∧ ∀ i < t.length, t.cells[i]? = some 0 := by
  unfold allocate? at h
  split at h
  · obtain rfl := Option.some.inj h
    refine ⟨rfl, fun i hi => ?_⟩
    rw [Tape.length, Array.size_replicate] at hi
    rw [Array.getElem?_replicate, if_pos hi]
  · contradiction

/-- Two circular tapes that are one and the same circle, numbered in different ways. -/
structure Turned (sense : Sense) (offset : Int) (t t' : Tape) : Prop where
  circular : t.addressing = .circular
  circular' : t'.addressing = .circular
  length_eq : t'.length = t.length
  pointer_eq : t'.pointer = sense.place t.length offset t.pointer
  cells_eq : ∀ i < t.length, t'.cells[sense.place t.length offset i]? = t.cells[i]?

namespace Turned

variable {sense : Sense} {offset : Int}

theorem get_eq (h : Turned sense offset t t') : t'.get = t.get := by
  have hcell : some t'.get = some t.get := by
    rw [← getElem?_pointer, ← getElem?_pointer, h.pointer_eq, h.cells_eq t.pointer t.pointer_lt]
  exact Option.some.inj hcell

theorem set (h : Turned sense offset t t') (value : UInt8) :
    Turned sense offset (t.set value) (t'.set value) where
  circular := h.circular
  circular' := h.circular'
  length_eq := by rw [length_set, length_set, h.length_eq]
  pointer_eq := by rw [length_set, pointer_set, pointer_set, h.pointer_eq]
  cells_eq := by
    intro i hi
    rw [length_set] at hi ⊢
    -- no two cells have the same place, so no other one is overwritten
    have hplace : t'.pointer = sense.place t.length offset i ↔ t.pointer = i := by
      rw [h.pointer_eq]
      exact ⟨sense.place_injective offset t.pointer_lt hi, congrArg _⟩
    simp only [cells_set, Array.getElem?_set, h.cells_eq i hi, hplace]

theorem store (h : Turned sense offset t t') (eof : EofPolicy) (read : Option UInt8) :
    Turned sense offset (Machine.store eof read t) (Machine.store eof read t') := by
  unfold Machine.store
  split
  · exact h.set _
  · exact h

theorem roll (h : Turned sense offset t t') (x : Int) :
    Turned sense offset (t.roll x) (t'.roll (sense.sign * x)) where
  circular := h.circular
  circular' := h.circular'
  length_eq := h.length_eq
  pointer_eq := by
    change onCircle t'.length _ = sense.place t.length offset (onCircle t.length _)
    rw [h.length_eq, h.pointer_eq, sense.place_onCircle_add offset t.length_pos]
  cells_eq := h.cells_eq

/-- A tape of zeros looks the same from everywhere. -/
theorem of_new {config : Config} {m : Machine} (h : Machine.new config = .ok m)
    (hcircular : config.addressing = .circular) (sense : Sense) (offset : Int) :
    Turned sense offset m.tape (m.tape.roll offset) := by
  obtain ⟨tape, htape, rfl⟩ := Machine.new_eq_ok_iff.1 h
  have haddressing : tape.addressing = .circular :=
    (madeFor_allocate? htape).addressing_eq.trans hcircular
  obtain ⟨hpointer, hcells⟩ := zeros_of_allocate? htape
  refine ⟨haddressing, haddressing, rfl, ?_, fun i hi => ?_⟩
  · change onCircle tape.length (tape.pointer + offset) =
      sense.place tape.length offset tape.pointer
    rw [Sense.place, hpointer, Nat.cast_zero, mul_zero]
  · change tape.cells[sense.place tape.length offset i]? = tape.cells[i]?
    rw [hcells _ hi, hcells _ (sense.place_lt offset tape.length_pos i)]

end Turned

end Tape

namespace Action

variable {tape : Tape}

theorem perform_moveRight (eof : EofPolicy) (h : tape.addressing = .circular) (s : Streams) :
    moveRight.perform eof tape s = { result := .ok (tape.roll 1), streams := s } := by
  rw [perform, Tape.moveRight_of_circular h]
  rfl

theorem perform_moveLeft (eof : EofPolicy) (h : tape.addressing = .circular) (s : Streams) :
    moveLeft.perform eof tape s = { result := .ok (tape.roll (-1)), streams := s } := by
  rw [perform, Tape.moveLeft_of_circular h]
  rfl

/-- On a circular tape a move is never refused, whichever way round it goes. -/
theorem perform_move (sense : Sense) (eof : EofPolicy) (h : tape.addressing = .circular)
    (s : Streams) :
    sense.move.perform eof tape s = { result := .ok (tape.roll sense.sign), streams := s } := by
  cases sense with
  | same => exact perform_moveRight eof h s
  | opposite => exact perform_moveLeft eof h s

end Action

/-! When all calls are shown, two actions match if they make the same ones. -/

section Shown

variable {Related : Tape → Streams → Tape → Streams → Prop} {tape tape' next next' : Tape}
  {s s' : Streams}

theorem Effect.matches_completed (h : Related next s next' s') (made : List Event) :
    Effect.Matches some Related tape tape' ⟨.ok next, s, made⟩ ⟨.ok next', s', made⟩ := by
  have hmatches : Effect.Matches some Related tape tape' ⟨.ok next, s, made⟩
      ⟨.ok next', s', made.filterMap some⟩ := .completed h
  rwa [List.filterMap_some] at hmatches

theorem Effect.matches_stopped (h : Related tape s tape' s') (obstacle : Obstacle)
    (made : List Event) :
    Effect.Matches some Related tape tape' ⟨.error obstacle, s, made⟩
      ⟨.error obstacle, s', made⟩ := by
  have hmatches : Effect.Matches some Related tape tape' ⟨.error obstacle, s, made⟩
      ⟨.error obstacle, s', made.filterMap some⟩ := .stopped h
  rwa [List.filterMap_some] at hmatches

end Shown

/-- A circle cannot be told from its other numberings. -/
theorem simulation_turned (sense : Sense) (offset : Int) (eof : EofPolicy) :
    Simulation eof eof sense.turn some
      fun tape s tape' s' => s' = s ∧ Tape.Turned sense offset tape tape' where
  get := fun h => h.2.get_eq
  flush := by
    rintro tape tape' s _ ⟨rfl, h⟩
    exact ⟨rfl, List.filterMap_some.symm, rfl, h⟩
  perform := by
    rintro tape tape' s _ ⟨rfl, h⟩ action
    cases action with
    | moveRight =>
        have hroll := h.roll 1
        rw [mul_one] at hroll
        rw [Sense.turn, Action.perform_moveRight eof h.circular,
          Action.perform_move sense eof h.circular']
        exact .completed ⟨rfl, hroll⟩
    | moveLeft =>
        have hroll := h.roll (-1)
        rw [mul_neg_one, ← Sense.sign_reverse] at hroll
        rw [Sense.turn, Action.perform_moveLeft eof h.circular,
          Action.perform_move sense.reverse eof h.circular']
        exact .completed ⟨rfl, hroll⟩
    | increment =>
        simp only [Sense.turn, Action.perform, Tape.increment, h.get_eq]
        exact Effect.matches_completed ⟨rfl, h.set _⟩ []
    | decrement =>
        simp only [Sense.turn, Action.perform, Tape.decrement, h.get_eq]
        exact Effect.matches_completed ⟨rfl, h.set _⟩ []
    | output =>
        simp only [Sense.turn, Action.perform, h.get_eq]
        rcases Streams.write _ tape.get with ⟨e | _, s₁, made⟩
        · exact Effect.matches_stopped ⟨rfl, h⟩ _ made
        · exact Effect.matches_completed ⟨rfl, h⟩ made
    | input =>
        simp only [Sense.turn, Action.perform]
        rcases Streams.flush _ with ⟨e | _, s₁, flushed⟩
        · exact Effect.matches_stopped ⟨rfl, h⟩ _ flushed
        · dsimp only
          rcases s₁.read with ⟨e | read, s₂, made⟩
          · exact Effect.matches_stopped ⟨rfl, h⟩ _ (flushed ++ made)
          · exact Effect.matches_completed ⟨rfl, h.store eof read⟩ (flushed ++ made)

/-- The reports of runs on circles of `n` cells are the same, but for the cells: what the one calls
cell `i` is cell `place i` for the other. -/
structure Report.Renumbered (n : Nat) (place : Nat → Nat) (r r' : Report) : Prop where
  events_eq : r'.events = r.events
  output_eq : r'.output = r.output
  length_eq : r.machine.tape.length = n
  length_eq' : r'.machine.tape.length = n
  pointer_eq : r'.machine.tape.pointer = place r.machine.tape.pointer
  cells_eq : ∀ i < n, r'.machine.tape.cells[place i]? = r.machine.tape.cells[i]?

namespace Machine

variable {config : Config} {m : Machine} {sense : Sense} {offset : Int} {place : Nat → Nat}

/-- A machine that begins elsewhere on a new circle, or goes round it the other way, runs as one
that does not. -/
theorem run_turned (hcircular : config.addressing = .circular) (hnew : new config = .ok m)
    (hplace : ∀ i < config.tapeLength.val, sense.place config.tapeLength.val offset i = place i)
    (p : Program) (fuel : Nat) (s : Streams) :
    Option.Rel
      (fun r r' => r'.fault = r.fault ∧ r'.machine.steps = r.machine.steps ∧
        r.Renumbered config.tapeLength.val place r')
      (m.run p config.eof fuel s)
      (({ tape := m.tape.roll offset } : Machine).run (p.mapAction sense.turn) config.eof
        fuel s) := by
  have hrun := (simulation_turned sense offset config.eof).run (p := p) (s := s)
    ⟨rfl, .of_new hnew hcircular sense offset⟩ fuel
  obtain ⟨tape, -, rfl⟩ := new_eq_ok_iff.1 hnew
  generalize hr : ({ tape } : Machine).run p config.eof fuel s = stopped at hrun ⊢
  generalize Machine.run (p.mapAction sense.turn) config.eof fuel _ s = stopped' at hrun ⊢
  cases hrun with
  | none => exact .none
  | @some r r' h =>
      obtain ⟨hmachine, ⟨-, hturned⟩, hevents, -, hfault⟩ := h
      rw [List.filterMap_some] at hevents
      have hlength : r.machine.tape.length = config.tapeLength.val :=
        ((Reachable.new hnew).run hr).madeFor.length_eq
      have hpointer : r.machine.tape.pointer < config.tapeLength.val :=
        hlength ▸ r.machine.tape.pointer_lt
      have hsteps : r'.machine.steps = r.machine.steps := by rw [hmachine]
      obtain ⟨-, -, hlength', hpointer', hcells⟩ := hturned
      rw [hlength] at hlength' hpointer' hcells
      exact .some ⟨hfault, hsteps, hevents, congrArg (List.filterMap _) hevents, hlength, hlength',
        hpointer'.trans (hplace _ hpointer), fun i hi => hplace i hi ▸ hcells i hi⟩

theorem callsWithin_turned (hcircular : config.addressing = .circular) (hnew : new config = .ok m)
    (sense : Sense) (offset : Int) (p : Program) (n : Nat) (s : Streams) :
    ({ tape := m.tape.roll offset } : Machine).callsWithin (p.mapAction sense.turn) config.eof n s =
      m.callsWithin p config.eof n s := by
  have hcalls := (simulation_turned sense offset config.eof).callsWithin (p := p) (s := s)
    ⟨rfl, .of_new hnew hcircular sense offset⟩ n
  rw [List.filterMap_some] at hcalls
  obtain ⟨tape, -, rfl⟩ := new_eq_ok_iff.1 hnew
  exact hcalls

end Machine

end TapeMachine
