import TapeMachine.Proofs.Moment

/-!
# Moves of the pointer

A move is refused in two places only: to the right of the last cell and to the left of the first
one, and there only if the tape is bounded.  No operation changes the number of cells or the
addressing, so the tape of every machine that can come about is still the one it was made with.
-/

namespace TapeMachine

namespace Tape

variable {t t' : Tape} {pointer : Int}

theorem moveRight_eq_error_iff :
    t.moveRight = .error pointer ↔
      t.addressing = .bounded ∧ t.pointer + 1 = t.length ∧ pointer = t.length := by
  have hlt : t.pointer < t.length := t.pointer_lt
  unfold moveRight
  split
  · next hnext =>
      constructor
      · intro h
        contradiction
      · rintro ⟨-, hlast, -⟩
        omega
  · next hnext =>
      have hlast : t.pointer + 1 = t.length := by omega
      split
      · next hmode => simp [hmode, ← hlast, eq_comm]
      · next hmode => simp [hmode]

theorem moveLeft_eq_error_iff :
    t.moveLeft = .error pointer ↔
      t.addressing = .bounded ∧ t.pointer = 0 ∧ pointer = -1 := by
  unfold moveLeft
  split
  · next hzero =>
      split
      · next hmode => simp [hmode, hzero, eq_comm]
      · next hmode => simp [hmode]
  · next hzero => simp [hzero]

/-- The tape has the length and the addressing that were asked for. -/
structure MadeFor (config : Config) (t : Tape) : Prop where
  length_eq : t.length = config.tapeLength.val
  addressing_eq : t.addressing = config.addressing

variable {config : Config}

theorem madeFor_allocate? (h : allocate? config.tapeLength config.addressing = some t) :
    t.MadeFor config := by
  unfold allocate? at h
  split at h
  · obtain rfl := Option.some.inj h
    exact ⟨Array.size_replicate, rfl⟩
  · contradiction

theorem MadeFor.set (ht : t.MadeFor config) (value : UInt8) : (t.set value).MadeFor config :=
  ⟨(t.length_set value).trans ht.length_eq, ht.addressing_eq⟩

theorem MadeFor.store (ht : t.MadeFor config) (eof : EofPolicy) (read : Option UInt8) :
    (Machine.store eof read t).MadeFor config := by
  unfold Machine.store
  split
  · exact ht.set _
  · exact ht

theorem MadeFor.moveRight (ht : t.MadeFor config) (h : t.moveRight = .ok t') :
    t'.MadeFor config := by
  unfold Tape.moveRight at h
  split at h
  · obtain rfl := Except.ok.inj h
    exact ⟨ht.length_eq, ht.addressing_eq⟩
  · split at h
    · contradiction
    · obtain rfl := Except.ok.inj h
      exact ⟨ht.length_eq, ht.addressing_eq⟩

theorem MadeFor.moveLeft (ht : t.MadeFor config) (h : t.moveLeft = .ok t') :
    t'.MadeFor config := by
  unfold Tape.moveLeft at h
  split at h
  · split at h
    · contradiction
    · obtain rfl := Except.ok.inj h
      exact ⟨ht.length_eq, ht.addressing_eq⟩
  · obtain rfl := Except.ok.inj h
    exact ⟨ht.length_eq, ht.addressing_eq⟩

end Tape

namespace Action

variable {action : Action} {config : Config} {eof : EofPolicy} {tape tape' : Tape}
  {s s' : Streams} {made : List Event}

theorem mapError_edge_eq_ok_iff {moved : Except Int Tape} :
    moved.mapError Obstacle.edge = .ok tape' ↔ moved = .ok tape' := by
  cases moved <;> simp [Except.mapError]

theorem mapError_edge_eq_error_iff {moved : Except Int Tape} {obstacle : Obstacle} :
    moved.mapError Obstacle.edge = .error obstacle ↔
      ∃ pointer, moved = .error pointer ∧ obstacle = .edge pointer := by
  cases moved <;> simp [Except.mapError, eq_comm]

theorem madeFor_of_perform (ht : tape.MadeFor config)
    (h : action.perform eof tape s = ⟨.ok tape', s', made⟩) : tape'.MadeFor config := by
  cases action with
  | moveRight =>
      obtain ⟨hmoved, -, -⟩ := Effect.mk.inj h
      exact ht.moveRight (mapError_edge_eq_ok_iff.1 hmoved)
  | moveLeft =>
      obtain ⟨hmoved, -, -⟩ := Effect.mk.inj h
      exact ht.moveLeft (mapError_edge_eq_ok_iff.1 hmoved)
  | increment =>
      obtain ⟨hset, -, -⟩ := Effect.mk.inj h
      obtain rfl := Except.ok.inj hset
      exact ht.set _
  | decrement =>
      obtain ⟨hset, -, -⟩ := Effect.mk.inj h
      obtain rfl := Except.ok.inj hset
      exact ht.set _
  | output =>
      simp only [perform] at h
      split at h
      · obtain ⟨hsame, -, -⟩ := Effect.mk.inj h
        obtain rfl := Except.ok.inj hsame
        exact ht
      · simp at h
  | input =>
      simp only [perform] at h
      split at h
      · simp at h
      · split at h
        · simp at h
        · obtain ⟨hstored, -, -⟩ := Effect.mk.inj h
          obtain rfl := Except.ok.inj hstored
          exact ht.store eof _

end Action

namespace Machine

variable {p : Program} {config : Config} {eof : EofPolicy} {m : Machine} {s : Streams}
  {a : Attempt}

theorem Step.madeFor (hm : m.tape.MadeFor config) (h : Step p eof m s a) :
    a.machine.tape.MadeFor config := by
  cases h with
  | @action action h =>
      rcases hperform : action.perform eof m.tape s with ⟨obstacle | tape, s', made⟩
      · exact hm
      · exact Action.madeFor_of_perform hm hperform
  | enter | skip | unpaired | leave | again | stray => exact hm

theorem Reachable.madeFor (hm : Reachable p config m) : m.tape.MadeFor config := by
  induction hm with
  | new h =>
      obtain ⟨tape, htape, rfl⟩ := new_eq_ok_iff.1 h
      exact Tape.madeFor_allocate? htape
  | step _ h ih => exact (step_of_step? h).madeFor ih

end Machine

end TapeMachine
