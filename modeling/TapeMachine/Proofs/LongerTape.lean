import TapeMachine.Proofs.FaultCause
import TapeMachine.Proofs.Lockstep

/-!
# Longer tapes

A run on a bounded tape that never leaves it does not notice how long the tape is.  Cells added
behind the last one are never reached, and neither is the other end of a circular tape, because a
move that would wrap around is a move that the bounded tape refuses.  So each completed instruction
is the same on the longer tape, and so is every failing one except a refused move.
-/

namespace TapeMachine

/-- The tape with `extra` more cells behind the last one, all of them zero. -/
def Tape.extend (extra : Nat) (mode : Addressing) (t : Tape) : Tape where
  cells := t.cells ++ Array.replicate extra 0
  pointer := t.pointer
  addressing := mode
  pointer_lt := by
    rw [Array.size_append]
    exact t.pointer_lt.trans_le (Nat.le_add_right _ _)

def Machine.extend (extra : Nat) (mode : Addressing) (m : Machine) : Machine :=
  { m with tape := m.tape.extend extra mode }

def Attempt.extend (extra : Nat) (mode : Addressing) (a : Attempt) : Attempt :=
  { a with machine := a.machine.extend extra mode }

def Effect.extend (extra : Nat) (mode : Addressing) (effect : Effect) : Effect :=
  { effect with result := effect.result.map (Tape.extend extra mode) }

variable {extra : Nat} {mode : Addressing}

namespace Tape

variable {t t' : Tape}

@[simp] theorem length_extend (t : Tape) : (t.extend extra mode).length = t.length + extra := by
  rw [length, extend, Array.size_append, Array.size_replicate]
  rfl

@[simp] theorem get_extend (t : Tape) : (t.extend extra mode).get = t.get :=
  Array.getElem_append_left t.pointer_lt

@[simp] theorem extend_set (t : Tape) (value : UInt8) :
    (t.set value).extend extra mode = (t.extend extra mode).set value := by
  obtain ⟨cells, pointer, addressing, h⟩ := t
  simp only [set, extend, Tape.mk.injEq, and_true]
  exact (Array.set_append_left h).symm

theorem extend_store (eof : EofPolicy) (read : Option UInt8) (t : Tape) :
    (Machine.store eof read t).extend extra mode =
      Machine.store eof read (t.extend extra mode) := by
  unfold Machine.store
  split
  · exact extend_set _ _
  · rfl

theorem moveRight_extend (h : t.moveRight = .ok t') (hmode : t.addressing = .bounded) :
    (t.extend extra mode).moveRight = .ok (t'.extend extra mode) := by
  unfold moveRight at h
  split at h
  · next hnext =>
      obtain rfl := Except.ok.inj h
      have hnext' : (t.extend extra mode).pointer + 1 < (t.extend extra mode).length := by
        rw [length_extend]
        exact hnext.trans_le (Nat.le_add_right _ _)
      rw [moveRight, dif_pos hnext']
      rfl
  · simp [hmode] at h

theorem moveLeft_extend (h : t.moveLeft = .ok t') (hmode : t.addressing = .bounded) :
    (t.extend extra mode).moveLeft = .ok (t'.extend extra mode) := by
  unfold moveLeft at h
  split at h
  · simp [hmode] at h
  · next hzero =>
      obtain rfl := Except.ok.inj h
      have hzero' : (t.extend extra mode).pointer ≠ 0 := hzero
      rw [moveLeft, if_neg hzero']
      rfl

theorem allocate?_extend {short long : CellCount} (hle : short.val ≤ long.val)
    (h : allocate? short .bounded = some t) (h' : allocate? long mode = some t') :
    t' = t.extend (long.val - short.val) mode := by
  unfold allocate? at h h'
  split at h
  · split at h'
    · obtain rfl := Option.some.inj h
      obtain rfl := Option.some.inj h'
      simp only [extend, Tape.mk.injEq, and_true]
      rw [Array.replicate_append_replicate, Nat.add_sub_cancel' hle]
    · contradiction
  · contradiction

end Tape

namespace Action

theorem perform_extend {action : Action} {eof : EofPolicy} {tape : Tape} {s : Streams}
    (hmode : tape.addressing = .bounded)
    (hedge : ∀ pointer, (action.perform eof tape s).result = .error (.edge pointer) →
      mode = .bounded ∧ pointer = -1) :
    action.perform eof (tape.extend extra mode) s =
      (action.perform eof tape s).extend extra mode := by
  cases action with
  | moveRight =>
      cases hmove : tape.moveRight with
      | ok moved => simp only [perform, hmove, Tape.moveRight_extend hmove hmode]; rfl
      | error pointer =>
          -- the missing cell lies behind the tape, so its address is not negative
          obtain ⟨-, hminus⟩ := hedge pointer (by simp only [perform, hmove]; rfl)
          obtain ⟨-, -, hlength⟩ := Tape.moveRight_eq_error_iff.1 hmove
          omega
  | moveLeft =>
      cases hmove : tape.moveLeft with
      | ok moved => simp only [perform, hmove, Tape.moveLeft_extend hmove hmode]; rfl
      | error pointer =>
          obtain ⟨hbounded, -⟩ := hedge pointer (by simp only [perform, hmove]; rfl)
          obtain ⟨-, hfirst, hminus⟩ := Tape.moveLeft_eq_error_iff.1 hmove
          have hmove' : (tape.extend extra mode).moveLeft = .error pointer := by
            apply Tape.moveLeft_eq_error_iff.2
            exact ⟨hbounded, hfirst, hminus⟩
          simp only [perform, hmove, hmove']
          rfl
  | increment =>
      simp only [perform, Tape.increment, Effect.extend, Except.map, Tape.get_extend,
        Tape.extend_set]
  | decrement =>
      simp only [perform, Tape.decrement, Effect.extend, Except.map, Tape.get_extend,
        Tape.extend_set]
  | output =>
      simp only [perform, Tape.get_extend]
      rcases s.write tape.get with ⟨_ | _, _, _⟩ <;> rfl
  | input =>
      simp only [perform, ← Tape.extend_store]
      rcases s.flush with ⟨_ | _, s₁, _⟩
      · rfl
      · dsimp only
        rcases s₁.read with ⟨_ | _, _, _⟩ <;> rfl

end Action

namespace Machine

open Moment

variable {p : Program} {eof : EofPolicy} {m m' : Machine} {s : Streams} {a : Attempt}

theorem carryOut_extend (m : Machine) (effect : Effect) :
    (m.extend extra mode).carryOut (effect.extend extra mode) =
      (m.carryOut effect).extend extra mode := by
  obtain ⟨_ | tape, s, events⟩ := effect <;> rfl

/-- An attempt is the same on the longer tape, unless the bounded tape refuses a move that the
longer one makes. -/
theorem Step.extend (hmode : m.tape.addressing = .bounded) (h : Step p eof m s a)
    (hedge : ∀ address pointer, a.fault = some (.pointerOutOfRange address pointer) →
      mode = .bounded ∧ pointer = -1) :
    Step p eof (m.extend extra mode) s (a.extend extra mode) := by
  have hcell : (m.extend extra mode).tape.get = m.tape.get := Tape.get_extend m.tape
  cases h with
  | @action action hcode =>
      rw [← carryOut_extend, ← Action.perform_extend hmode]
      · exact .action hcode
      · intro pointer hresult
        apply hedge m.address pointer
        rcases hperform : action.perform eof m.tape s with ⟨result, s', made⟩
        rw [hperform] at hresult
        obtain rfl : result = .error (.edge pointer) := hresult
        rfl
  | enter hcode hne => exact .enter hcode (hcell ▸ hne)
  | skip hcode hzero htarget => exact .skip hcode (hcell ▸ hzero) htarget
  | unpaired hcode hzero htarget => exact .unpaired hcode (hcell ▸ hzero) htarget
  | leave hcode hloops hzero => exact .leave hcode hloops (hcell ▸ hzero)
  | again hcode hloops hne => exact .again hcode hloops (hcell ▸ hne)
  | stray hcode hloops => exact .stray hcode hloops

variable {config : Config}

/-- The second machine has the tape of the first one, which is bounded, and some cells more. -/
def Extends (config : Config) (extra : Nat) (mode : Addressing) (m m' : Machine) : Prop :=
  m.tape.MadeFor config ∧ m' = m.extend extra mode

theorem lockstep_extends (hmode : config.addressing = .bounded) :
    Lockstep p p eof eof (Extends config extra mode) := by
  rintro m m' next s s' made ⟨hm, rfl⟩ hs
  have hstep := step_of_step? hs
  have hbounded : m.tape.addressing = .bounded := hm.addressing_eq.trans hmode
  refine ⟨next.extend extra mode, ?_, hstep.madeFor hm, rfl⟩
  apply Step.step?_eq
  apply hstep.extend hbounded
  intro address pointer hfault
  contradiction

theorem after_extend (extra : Nat) (mode : Addressing) (hm : m.tape.MadeFor config)
    (hmode : config.addressing = .bounded) {n : Nat} {d : Moment}
    (hd : Moment.after p eof n ⟨m, s, []⟩ = some d) :
    d.machine.tape.MadeFor config ∧
      Moment.after p eof n ⟨m.extend extra mode, s, []⟩ =
        some { d with machine := d.machine.extend extra mode } := by
  obtain ⟨next', hafter, hmade, rfl⟩ :=
    (lockstep_extends hmode).after (c := ⟨m, s, []⟩) ⟨hm, rfl⟩ hd
  exact ⟨hmade, hafter⟩

theorem run_extend (extra : Nat) (mode : Addressing) (hm : m.tape.MadeFor config)
    (hmode : config.addressing = .bounded) {fuel : Nat} {r : Report}
    (h : m.run p eof fuel s = some r)
    (hedge : ∀ address pointer, r.fault = some (.pointerOutOfRange address pointer) →
      mode = .bounded ∧ pointer = -1) :
    (m.extend extra mode).run p eof fuel s =
      some { r with machine := r.machine.extend extra mode } := by
  obtain ⟨n, hn, a, ⟨d, hd, ha⟩, rfl⟩ := run_eq_some_iff.1 h
  obtain ⟨hmade, hafter⟩ := after_extend extra mode hm hmode hd
  apply run_eq_some_iff.2
  refine ⟨n, hn, a.extend extra mode, ⟨_, hafter, ?_⟩, rfl⟩
  apply ending?_eq_some_iff.2
  rcases ending?_eq_some_iff.1 ha with ⟨hnone, rfl⟩ | ⟨made, fault, hs, hevents, hfault⟩
  · left
    rw [step?_eq_none_iff] at hnone
    exact ⟨step?_eq_none_iff.2 hnone, rfl⟩
  · right
    refine ⟨made, fault, ?_, hevents, hfault⟩
    apply Step.step?_eq
    apply (step_of_step? hs).extend (hmade.addressing_eq.trans hmode)
    intro address pointer hf
    apply hedge address pointer
    rw [finish, hfault, Option.some_or]
    exact hf

theorem extend_new {short long : CellCount} (hle : short.val ≤ long.val)
    (h : new { tapeLength := short, addressing := .bounded, eof } = .ok m)
    (h' : new { tapeLength := long, addressing := mode, eof } = .ok m') :
    m' = m.extend (long.val - short.val) mode := by
  obtain ⟨tape, htape, rfl⟩ := new_eq_ok_iff.1 h
  obtain ⟨tape', htape', rfl⟩ := new_eq_ok_iff.1 h'
  rw [Tape.allocate?_extend hle htape htape']
  rfl

/-- A run of a new machine with a bounded tape, compared with the same run on a tape that is at
least as long.  If the pointer stayed on the shorter tape, both runs report the same, and the longer
tape, bounded or circular, is the shorter one followed by zeros.  The same fault is reported if the
pointer would have left a bounded tape at its first cell.  If it would have left it behind the last
cell, the machine with the longer tape comes, after as many instructions, to the same state, having
made the same calls up to the last flush. -/
theorem run_on_longer_tape {short long : CellCount} (hle : short.val ≤ long.val)
    (hnew : new { tapeLength := short, addressing := .bounded, eof } = .ok m)
    (hnew' : new { tapeLength := long, addressing := mode, eof } = .ok m')
    {fuel : Nat} {r : Report} (h : m.run p eof fuel s = some r) :
    ((∀ address pointer, r.fault ≠ some (.pointerOutOfRange address pointer)) →
      ∃ r', m'.run p eof fuel s = some r' ∧ r'.fault = r.fault ∧ r'.events = r.events ∧
        r'.output = r.output ∧ r'.machine.steps = r.machine.steps ∧
        r'.machine.tape.pointer = r.machine.tape.pointer ∧
        r'.machine.tape.cells =
          r.machine.tape.cells ++ Array.replicate (long.val - short.val) 0) ∧
      (mode = .bounded → ∀ address, r.fault = some (.pointerOutOfRange address (-1)) →
        ∃ r', m'.run p eof fuel s = some r' ∧ r'.fault = r.fault ∧ r'.output = r.output) ∧
      (mode = .bounded → ∀ address, r.fault = some (.pointerOutOfRange address short.val) →
        ∃ d flushed, Moment.after p eof r.machine.steps ⟨m', s, []⟩ = some d ∧
          d.machine = r.machine.extend (long.val - short.val) mode ∧
          r.events = d.events ++ [.flush flushed]) := by
  have hmade : m.tape.MadeFor { tapeLength := short, addressing := .bounded, eof } := by
    obtain ⟨tape, htape, rfl⟩ := new_eq_ok_iff.1 hnew
    exact Tape.madeFor_allocate? htape
  have hm' := extend_new hle hnew hnew'
  subst hm'
  refine ⟨?_, ?_, ?_⟩
  · intro hinside
    have hrun := run_extend (long.val - short.val) mode hmade rfl h
      fun address pointer hf => absurd hf (hinside address pointer)
    exact ⟨_, hrun, rfl, rfl, rfl, rfl, rfl, rfl⟩
  · intro hmode address hf
    have hrun := run_extend (long.val - short.val) mode hmade rfl h <| by
      intro address' pointer hf'
      obtain ⟨-, hpointer⟩ := Fault.pointerOutOfRange.inj (Option.some.inj (hf'.symm.trans hf))
      exact ⟨hmode, hpointer⟩
    exact ⟨_, hrun, rfl, rfl⟩
  · intro hmode address hf
    obtain ⟨n, d, hd, hmachine, ⟨-, s', made, flushed, hs, hevents⟩ | ⟨-, -, e, hstream, -⟩⟩ :=
      fault_cases_of_run h hf
    · -- the refused move made no call, so behind the calls of `d` there is only the last flush
      have hsteps : r.machine.steps = n := by
        have hcount := Moment.steps_of_after hd
        obtain ⟨tape, -, rfl⟩ := new_eq_ok_iff.1 hnew
        rw [← hmachine, hcount]
        exact Nat.zero_add n
      have hmade' : made = [] := (step_of_step? hs).events_of_pointerOutOfRange rfl
      have hafter := (after_extend (long.val - short.val) mode hmade rfl hd).2
      rw [hsteps]
      refine ⟨_, flushed, hafter, ?_, ?_⟩
      · rw [hmachine]
      · rw [hevents, hmade', List.append_nil]
    · contradiction

/-- The first program goes to the last cell of the shorter tape and the second one leaves the tape
there. -/
theorem run_on_longer_tape_last_cell :
    ∃ (inside beyond : Program) (short circular bounded : Machine) (r q : Report),
      Program.parse ">+." = .ok inside ∧ Program.parse ">>" = .ok beyond ∧
      new { tapeLength := ⟨2, by decide, by decide⟩ } = .ok short ∧
      new { tapeLength := ⟨4, by decide, by decide⟩, addressing := .circular } = .ok circular ∧
      new { tapeLength := ⟨4, by decide, by decide⟩ } = .ok bounded ∧
      short.run inside .zero 4 {} = some r ∧ r.fault = none ∧
      (∃ r', circular.run inside .zero 4 {} = some r' ∧ r'.fault = r.fault ∧
        r'.machine.tape.cells = r.machine.tape.cells ++ Array.replicate (4 - 2) 0) ∧
      short.run beyond .zero 4 {} = some q ∧ q.fault = some (.pointerOutOfRange 1 2) ∧
      ∃ d flushed, Moment.after beyond .zero q.machine.steps ⟨bounded, {}, []⟩ = some d ∧
        d.machine = q.machine.extend (4 - 2) .bounded ∧
        q.events = d.events ++ [.flush flushed] := by
  let inside : Program :=
    { code := #[.moveRight, .increment, .output], jumps := #[none, none, none], size_jumps := rfl }
  let beyond : Program :=
    { code := #[.moveRight, .moveRight], jumps := #[none, none], size_jumps := rfl }
  let short : Machine := { tape := ⟨#[0, 0], 0, .bounded, by decide⟩ }
  let circular : Machine := { tape := ⟨#[0, 0, 0, 0], 0, .circular, by decide⟩ }
  let bounded : Machine := { tape := ⟨#[0, 0, 0, 0], 0, .bounded, by decide⟩ }
  let two : CellCount := ⟨2, by decide, by decide⟩
  let four : CellCount := ⟨4, by decide, by decide⟩
  have hshort : new { tapeLength := two } = .ok short := by rfl
  have hcircular : new { tapeLength := four, addressing := .circular } = .ok circular := by rfl
  have hbounded : new { tapeLength := four } = .ok bounded := by rfl
  have hle : two.val ≤ four.val := by decide
  let r : Report := (short.run inside .zero 4 {}).get (by decide)
  let q : Report := (short.run beyond .zero 4 {}).get (by decide)
  have hr : short.run inside .zero 4 {} = some r := (Option.some_get _).symm
  have hq : short.run beyond .zero 4 {} = some q := (Option.some_get _).symm
  have hrf : r.fault = none := by decide
  have hqf : q.fault = some (.pointerOutOfRange 1 2) := by decide
  obtain ⟨r', hr', hfault, -, -, -, -, hcells⟩ :=
    (run_on_longer_tape hle hshort hcircular hr).1 (by simp [hrf])
  have hbeyond := (run_on_longer_tape hle hshort hbounded hq).2.2 rfl 1 hqf
  exact ⟨inside, beyond, short, circular, bounded, r, q, by rfl, by rfl, hshort, hcircular,
    hbounded, hr, hrf, ⟨r', hr', hfault, hcells⟩, hq, hqf, hbeyond⟩

end Machine

end TapeMachine
