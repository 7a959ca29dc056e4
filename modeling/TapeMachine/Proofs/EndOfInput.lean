import TapeMachine.Proofs.Attempts
import TapeMachine.Proofs.Causality

/-!
# The end of the input as a byte

A rule that stores a byte at the end of the input makes of the input an endless one, in which that
byte is read wherever there is nothing to read.  A run that stops under such a rule therefore does
the same, under whatever rule, on the script in which the byte is written out wherever the run met
the end, as often as it did so behind the end of the script.

The new script is made of what the run has read.  So the comparison goes by the calls: an attempt is
repeated on the outcomes of its own reads, padded, in front of anything that is left.
-/

namespace TapeMachine

/-- The outcome with the byte `value` in place of the end of the input. -/
def ReadOutcome.padded (value : UInt8) : ReadOutcome → ReadOutcome
  | endOfInput => .byte value
  | outcome => outcome

namespace Event

/-- The call with a read of the byte `value` in place of one that met the end of the input. -/
def padded (value : UInt8) : Event → Event
  | read outcome => read (outcome.padded value)
  | call => call

/-- What a script has to hold for a read to have this outcome, padded. -/
def paddedRead? (value : UInt8) : Event → Option ReadOutcome
  | read outcome => some (outcome.padded value)
  | _ => none

end Event

/-- The script with the byte `value` in place of each end of the input among its first `k` outcomes.
Behind its own end a script goes on with ends of input. -/
def padScript (value : UInt8) : (k : Nat) → List ReadOutcome → List ReadOutcome
  | 0, script => script
  | k + 1, script =>
      (script.headD .endOfInput).padded value :: padScript value k script.tail

variable {value : UInt8}

namespace Streams

/-- The script of a user's reads is what was read, padded, and what is left. -/
theorem Answers.padScript_eq {s s' : Streams} {calls : List Event} (h : s.Answers calls s') :
    padScript value (calls.countP Event.isRead) s.reads =
      calls.filterMap (Event.paddedRead? value) ++ s'.reads := by
  induction h with
  | done => rfl
  | read h ih =>
      rw [List.countP_cons_of_pos rfl, padScript, ih]
      rfl
  | write sent h ih =>
      rw [List.countP_cons_of_neg Bool.false_ne_true, ih]
      rfl
  | flush h ih =>
      rw [List.countP_cons_of_neg Bool.false_ne_true, ih]
      rfl

theorem readFrom_padded (value : UInt8) (script rest : List ReadOutcome) :
    readFrom ((readFrom script).2.2.filterMap (Event.paddedRead? value) ++ rest) =
      ((readFrom script).1.map fun read => some (read.getD value), rest,
        (readFrom script).2.2.map (Event.padded value)) := by
  induction script with
  | nil => rfl
  | cons outcome script ih =>
      cases outcome with
      | byte byte => rfl
      | endOfInput => rfl
      | failure e =>
          by_cases hi : e.isInterruption
          · let later := (readFrom script).2.2.filterMap (Event.paddedRead? value) ++ rest
            rw [readFrom_interrupted hi]
            change readFrom (.failure e :: later) = _
            rw [readFrom_interrupted hi, ih]
            rfl
          · rw [readFrom_failure hi]
            exact readFrom_failure hi rest

theorem read_padded (s : Streams) (rest : List ReadOutcome) :
    ({ s with reads := s.read.events.filterMap (Event.paddedRead? value) ++ rest } : Streams).read =
      { result := s.read.result.map fun read => some (read.getD value)
        streams := { s.read.streams with reads := rest }
        events := s.read.events.map (Event.padded value) } := by
  have hread := readFrom_padded value s.reads rest
  simp only [read, hread]

end Streams

open Streams

/-- Nothing is padded in calls that read nothing. -/
theorem padded_of_forall_not_isRead (value : UInt8) {calls : List Event}
    (h : ∀ call ∈ calls, ¬ call.isRead) :
    calls.filterMap (Event.paddedRead? value) = [] ∧ calls.map (Event.padded value) = calls := by
  constructor
  · refine List.filterMap_eq_nil_iff.2 fun call hcall => ?_
    cases call with
    | read outcome => exact absurd rfl (h _ hcall)
    | write | flush => rfl
  · refine (List.map_congr_left fun call hcall => ?_).trans calls.map_id
    cases call with
    | read outcome => exact absurd rfl (h _ hcall)
    | write | flush => rfl

variable {eof : EofPolicy}

theorem store_padded (h : eof.stored? = some value) (eof' : EofPolicy) (read : Option UInt8)
    (tape : Tape) :
    Machine.store eof' (some (read.getD value)) tape = Machine.store eof read tape := by
  cases read with
  | none => simp only [Machine.store, Option.none_or, h, Option.getD_none, Option.some_or]
  | some byte => rfl

/-- An action repeated on what it has read, padded, has the same effect under any rule. -/
theorem Action.perform_padded (h : eof.stored? = some value) (eof' : EofPolicy) {action : Action}
    {tape : Tape} {s : Streams} {effect : Effect} (heffect : action.perform eof tape s = effect)
    (rest : List ReadOutcome) :
    action.perform eof' tape
        { s with reads := effect.events.filterMap (Event.paddedRead? value) ++ rest } =
      { result := effect.result
        streams := { effect.streams with reads := rest }
        events := effect.events.map (Event.padded value) } := by
  by_cases haction : action = .input
  · have hflushed (call : Event) (hcall : call ∈ s.flush.events) : ¬ call.isRead :=
      not_isRead_of_mem_flush hcall
    obtain ⟨hreads, hmap⟩ := padded_of_forall_not_isRead value hflushed
    rw [haction] at heffect ⊢
    rcases hflush : s.flush with ⟨e | _, s₁, flushed⟩ <;> rw [hflush] at hreads hmap
    · rw [perform_input_of_unflushed hflush] at heffect
      subst heffect
      have hflush' := flush_withReads s rest
      rw [hflush] at hflush'
      simp only [hreads, hmap, List.nil_append]
      exact perform_input_of_unflushed hflush' eof' tape
    · rw [perform_input_of_flushed hflush] at heffect
      subst heffect
      have hflush' := flush_withReads s
        (s₁.read.events.filterMap (Event.paddedRead? value) ++ rest)
      rw [hflush] at hflush'
      simp only [List.filterMap_append, List.map_append, hreads, hmap, List.nil_append]
      rw [perform_input_of_flushed hflush' eof' tape, read_padded]
      -- what is stored is the byte that was read, or the one that the rule would have stored
      cases s₁.read.result with
      | error e => rfl
      | ok read => simp only [Except.map, Except.mapError, store_padded h]
  · obtain ⟨hrest, -, hsilent⟩ := perform_withReads haction eof tape s rest
    obtain ⟨hreads, hmap⟩ := padded_of_forall_not_isRead value hsilent
    rw [← heffect, hreads, hmap, List.nil_append, perform_eof haction eof eof', hrest]

namespace Machine

variable {p : Program} {eof' : EofPolicy} {m : Machine} {s : Streams} {a : Attempt}

theorem step?_padded (h : eof.stored? = some value) (eof' : EofPolicy)
    (hstep : m.step? p eof s = some a) (rest : List ReadOutcome) :
    m.step? p eof'
        { s with reads := a.events.filterMap (Event.paddedRead? value) ++ rest } =
      some { a with
        streams := { a.streams with reads := rest }
        events := a.events.map (Event.padded value) } := by
  rcases (step_of_step? hstep).action_or_silent with ⟨action, hcode, rfl⟩ | ⟨hstreams, hmade, hany⟩
  · rw [(Step.action hcode).step?_eq, events_carryOut, Action.perform_padded h eof' rfl]
    rcases action.perform eof m.tape s with ⟨obstacle | tape, s₁, made⟩ <;> rfl
  · obtain ⟨m₁, s₁, made, fault⟩ := a
    obtain rfl : s₁ = s := hstreams
    obtain rfl : made = [] := hmade
    exact (hany eof' _).step?_eq

/-- An execution repeated on what it has read, padded, ends in the same way under any rule. -/
theorem executeAll_padded (h : eof.stored? = some value) (eof' : EofPolicy) {fuel : Nat}
    {before : Array Event} (ha : executeAll p eof fuel m s before = some a) :
    ∃ made, a.events = before.toList ++ made ∧ ∀ rest (before' : Array Event),
      executeAll p eof' fuel m
          { s with reads := made.filterMap (Event.paddedRead? value) ++ rest } before' =
        some { a with
          streams := { a.streams with reads := rest }
          events := before'.toList ++ made.map (Event.padded value) } := by
  induction fuel generalizing m s before with
  | zero => contradiction
  | succ fuel ih =>
      simp only [executeAll] at ha
      split at ha
      · next hs =>
          obtain rfl := Option.some.inj ha
          refine ⟨[], (List.append_nil _).symm, fun rest before' => ?_⟩
          have hend : m.step? p eof' { s with reads := rest } = none :=
            step?_eq_none_iff.2 (step?_eq_none_iff.1 hs)
          simp [executeAll, hend]
      · next m₁ s₁ made hs =>
          obtain ⟨later, hlater, hpadded⟩ := ih ha
          refine ⟨made ++ later, ?_, fun rest before' => ?_⟩
          · rw [hlater]
            simp
          · have hstep := step?_padded h eof' hs
              (later.filterMap (Event.paddedRead? value) ++ rest)
            rw [List.filterMap_append, List.append_assoc, executeAll, hstep]
            dsimp only
            rw [hpadded]
            simp
      · next m₁ s₁ made fault hs =>
          obtain rfl := Option.some.inj ha
          refine ⟨made, ?_, fun rest before' => ?_⟩
          · simp
          · have hstep := step?_padded h eof' hs rest
            rw [executeAll, hstep]
            simp

/-- A run repeated on what it has read, padded, has the same report under any rule. -/
theorem run_padded (h : eof.stored? = some value) (eof' : EofPolicy) {fuel : Nat} {r : Report}
    (hr : m.run p eof fuel s = some r) (rest : List ReadOutcome) :
    m.run p eof' fuel
        { s with reads := r.events.filterMap (Event.paddedRead? value) ++ rest } =
      some { r with
        streams := { r.streams with reads := rest }
        events := r.events.map (Event.padded value) } := by
  obtain ⟨a, ha, rfl⟩ := Option.map_eq_some_iff.1 hr
  obtain ⟨made, hmade, hpadded⟩ := executeAll_padded h eof' ha
  obtain rfl : made = a.events := hmade.symm
  obtain ⟨hreads, hmap⟩ := padded_of_forall_not_isRead value
    fun call => not_isRead_of_mem_flush (s := a.streams)
  have hevents : (finish a).events.filterMap (Event.paddedRead? value) =
      a.events.filterMap (Event.paddedRead? value) := by
    rw [finish, List.filterMap_append, hreads, List.append_nil]
  rw [hevents, run, hpadded rest #[], Option.map_some]
  simp only [finish, flush_withReads, List.map_append, hmap, List.nil_append]

theorem run_padScript (h : eof.stored? = some value) (eof' : EofPolicy) {fuel : Nat} {r : Report}
    (hr : m.run p eof fuel s = some r) :
    m.run p eof' fuel
        { s with reads := padScript value (r.events.countP Event.isRead) s.reads } =
      some { r with events := r.events.map (Event.padded value) } := by
  rw [(answers_of_run hr).padScript_eq]
  exact run_padded h eof' hr r.streams.reads

/-- Under the rule that stores nothing, an input that meets the end is completed and changes
nothing but the place in the program. -/
theorem step?_at_end (hstep : m.step? p .unchanged s = some a)
    (hend : .read .endOfInput ∈ a.events) :
    p.code[m.address]? = some .input ∧ a.fault = none ∧ a.machine = m.proceed := by
  rcases (step_of_step? hstep).action_or_silent with ⟨action, hcode, rfl⟩ | ⟨-, hmade, -⟩
  · rw [events_carryOut] at hend
    by_cases haction : action = .input
    · subst haction
      refine ⟨hcode, ?_⟩
      have hflushed := endOfInput_not_mem fun call => not_isRead_of_mem_flush (s := s)
      rcases hflush : s.flush with ⟨e | _, s₁, flushed⟩ <;> rw [hflush] at hflushed
      · rw [Action.perform_input_of_unflushed hflush] at hend
        exact absurd hend hflushed
      · rw [Action.perform_input_of_flushed hflush] at hend ⊢
        have hread : .read .endOfInput ∈ s₁.read.events :=
          (List.mem_append.1 hend).resolve_left hflushed
        have hcalls : ReadCalls s₁.read.events s₁.read.result := readCalls_readFrom s₁.reads
        rcases hcalls.endOfInput_cases with ⟨hresult, -⟩ | ⟨-, hno⟩
        · rw [hresult]
          exact ⟨rfl, rfl⟩
        · exact absurd hread hno
    · have hsilent := (Action.perform_withReads haction .unchanged m.tape s []).2.2
      exact absurd hend (endOfInput_not_mem hsilent)
  · rw [hmade] at hend
    contradiction

/-- Suppose that a run stops under a rule that stores 0, or 255, at the end of the input.  Write that
byte into the script for each end of the input that the run has met, also for those behind the end
of the script.  Then the run on the new script stops under any rule with the same machine, the same
result and the same output, and makes the same calls except that it reads the byte where the end was
met.  Under the rule that stores nothing, every input that meets the end is completed, and all cells
are as they were. -/
theorem end_of_input_is_padding
    (hvalue : eof = .zero ∧ value = 0 ∨ eof = .max ∧ value = 255) {fuel : Nat} {r : Report}
    (hr : m.run p eof fuel s = some r) :
    (∀ eof', ∃ r',
      m.run p eof' fuel
          { s with reads := padScript value (r.events.countP Event.isRead) s.reads } = some r' ∧
        r'.machine = r.machine ∧ r'.fault = r.fault ∧ r'.output = r.output ∧
        r'.events = r.events.map (Event.padded value)) ∧
      ∀ (m : Machine) (s : Streams) (a : Attempt), m.step? p .unchanged s = some a →
        .read .endOfInput ∈ a.events →
          p.code[m.address]? = some .input ∧ a.fault = none ∧ a.machine = m.proceed ∧
            a.machine.tape = m.tape := by
  have hstored : eof.stored? = some value := by
    rcases hvalue with ⟨rfl, rfl⟩ | ⟨rfl, rfl⟩ <;> rfl
  refine ⟨fun eof' => ⟨_, run_padScript hstored eof' hr, rfl, rfl, ?_, rfl⟩, ?_⟩
  · rw [Report.output, List.filterMap_map]
    refine List.filterMap_congr fun call _ => ?_
    cases call <;> rfl
  · intro m s a hstep hend
    obtain ⟨hcode, hfault, hmachine⟩ := step?_at_end hstep hend
    exact ⟨hcode, hfault, hmachine, by rw [hmachine]; rfl⟩

/-- The end of the input is met in front of a byte and behind the script, the second time in a loop
that it ends. -/
theorem end_of_input_is_padding_in_loop :
    let reads : List ReadOutcome := [.endOfInput, .failure (.ofKind .interrupted), .byte 7]
    ∃ (p : Program) (m : Machine) (r r' : Report), Program.parse ",.,.[,+.]" = .ok p ∧
      new { tapeLength := ⟨2, by decide, by decide⟩ } = .ok m ∧
      m.run p .max 20 { reads } = some r ∧ r.output = [255, 7, 0] ∧
      padScript 255 (r.events.countP Event.isRead) reads =
        [.byte 255, .failure (.ofKind .interrupted), .byte 7, .byte 255] ∧
      m.run p .unchanged 20 { reads := padScript 255 (r.events.countP Event.isRead) reads } =
        some r' ∧ r'.machine = r.machine ∧ r'.output = [255, 7, 0] ∧
      ∃ a, m.step? p .unchanged { reads } = some a ∧ .read .endOfInput ∈ a.events ∧
        a.machine.tape = m.tape := by
  intro reads
  let p : Program :=
    { code := #[.input, .output, .input, .output, .loopStart, .input, .increment, .output, .loopEnd]
      jumps := #[none, none, none, none, some 8, none, none, none, none], size_jumps := rfl }
  let m : Machine := { tape := ⟨#[0, 0], 0, .bounded, by decide⟩ }
  have hparse : Program.parse ",.,.[,+.]" = .ok p := by rfl
  have hnew : new { tapeLength := ⟨2, by decide, by decide⟩ } = .ok m := by rfl
  let r : Report := (m.run p .max 20 { reads }).get (by decide)
  have hr : m.run p .max 20 { reads } = some r := (Option.some_get _).symm
  have houtput : r.output = [255, 7, 0] := by decide
  let a : Attempt := (m.step? p .unchanged { reads }).get (by decide)
  have ha : m.step? p .unchanged { reads } = some a := (Option.some_get _).symm
  have hend : .read .endOfInput ∈ a.events := by decide
  obtain ⟨hruns, hunchanged⟩ := end_of_input_is_padding (.inr ⟨rfl, rfl⟩) hr
  obtain ⟨r', hr', hmachine, -, hsame, -⟩ := hruns .unchanged
  exact ⟨p, m, r, r', hparse, hnew, hr, houtput, by decide, hr', hmachine, hsame.trans houtput, a,
    ha, hend, (hunchanged m _ a ha hend).2.2.2⟩

end Machine

end TapeMachine
