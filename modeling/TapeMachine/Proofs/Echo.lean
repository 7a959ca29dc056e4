import TapeMachine.Proofs.BlockExecution
import TapeMachine.Proofs.Causality
import TapeMachine.Proofs.Circle

/-!
# A program that echoes its input

The program `,[.,]` reads a byte, and as long as that is not zero it writes the byte and reads the
next one.  If the end of the input is stored as a zero, then it comes to the same as a zero in the
input, and the program writes what stands in front of the first of the two.  Every byte of that
costs one flush, one read and one write, and three steps.
-/

namespace TapeMachine

/-- Neither a write nor a flush ever fails. -/
structure Streams.Accepting (s : Streams) : Prop where
  writes_accepted : ∀ outcome ∈ s.writes, outcome = .accepted
  flushes_done : ∀ outcome ∈ s.flushes, outcome = .done

/-- Streams that do not fail, and whose reads deliver the input and then meet its end. -/
structure Streams.Delivers (s : Streams) (input : List UInt8) : Prop extends s.Accepting where
  reads_agree : AgreeFor (input.length + 1) s.reads (input.map .byte)

namespace Streams

variable {s : Streams} {byte : UInt8} {input : List UInt8}

theorem delivers_ofInput (input : List UInt8) : (ofInput input).Delivers input where
  writes_accepted _ h := absurd h List.not_mem_nil
  flushes_done _ h := absurd h List.not_mem_nil
  reads_agree _ _ := rfl

namespace Accepting

theorem headD_flushes (h : s.Accepting) : s.flushes.headD .done = .done := by
  obtain ⟨reads, writes, _ | ⟨outcome, flushes⟩⟩ := s
  · rfl
  · exact h.flushes_done outcome List.mem_cons_self

theorem flush_eq (h : s.Accepting) :
    s.flush = ⟨.ok (), { s with flushes := s.flushes.tail }, [.flush .done]⟩ := by
  rw [Streams.flush_eq, h.headD_flushes]

theorem perform_output (h : s.Accepting) (eof : EofPolicy) (tape : Tape) :
    Action.output.perform eof tape s =
      ⟨.ok tape, { s with writes := s.writes.tail }, [.write tape.get .accepted]⟩ := by
  obtain ⟨reads, _ | ⟨outcome, writes⟩, flushes⟩ := s
  · rfl
  · obtain rfl : outcome = .accepted := h.writes_accepted outcome List.mem_cons_self
    rfl

/-- The next byte, or zero at the end of the input, gets into the current cell. -/
theorem perform_input {outcome : ReadOutcome} {value : UInt8} (h : s.Accepting)
    (tape : Tape) (hread : s.reads.headD .endOfInput = outcome)
    (hvalue : outcome = .byte value ∨ outcome = .endOfInput ∧ value = 0) :
    Action.input.perform .zero tape s =
      ⟨.ok (tape.set value), { s with reads := s.reads.tail, flushes := s.flushes.tail },
        [.flush .done, .read outcome]⟩ := by
  rw [Action.perform_input_of_flushed h.flush_eq]
  rcases hvalue with rfl | ⟨rfl, rfl⟩
  · have hcall : readFrom s.reads = (.ok (some value), s.reads.tail, [.read (.byte value)]) := by
      rw [readFrom_eq, hread]
    simp only [Streams.read, hcall]
    rfl
  · have hcall : readFrom s.reads = (.ok none, s.reads.tail, [.read .endOfInput]) := by
      rw [readFrom_eq, hread]
    simp only [Streams.read, hcall]
    rfl

theorem after_output (h : s.Accepting) :
    ({ s with writes := s.writes.tail } : Streams).Accepting where
  writes_accepted outcome houtcome := h.writes_accepted outcome (List.mem_of_mem_tail houtcome)
  flushes_done := h.flushes_done

theorem after_input (h : s.Accepting) :
    ({ s with reads := s.reads.tail, flushes := s.flushes.tail } : Streams).Accepting where
  writes_accepted := h.writes_accepted
  flushes_done outcome houtcome := h.flushes_done outcome (List.mem_of_mem_tail houtcome)

end Accepting

theorem Delivers.headD_reads (h : s.Delivers (byte :: input)) :
    s.reads.headD .endOfInput = .byte byte :=
  (agreeFor_succ.1 h.reads_agree).1

theorem Delivers.headD_reads_nil (h : s.Delivers []) : s.reads.headD .endOfInput = .endOfInput :=
  (agreeFor_succ.1 h.reads_agree).1

theorem Delivers.after_input (h : s.Delivers (byte :: input)) :
    ({ s with reads := s.reads.tail, flushes := s.flushes.tail } : Streams).Delivers input where
  toAccepting := h.toAccepting.after_input
  reads_agree := (agreeFor_succ.1 h.reads_agree).2

theorem Delivers.after_output (h : s.Delivers input) :
    ({ s with writes := s.writes.tail } : Streams).Delivers input where
  toAccepting := h.toAccepting.after_output
  reads_agree := h.reads_agree

end Streams

namespace Tape

theorem set_set (t : Tape) (value value' : UInt8) : (t.set value).set value' = t.set value' := by
  simp [set]

theorem set_get (t : Tape) : t.set t.get = t := by
  simp [set, get]

end Tape

/-! ## The calls -/

/-- The calls of the program up to the read that ends it. -/
def echoCalls : (input : List UInt8) → List Event
  | [] => [.flush .done, .read .endOfInput]
  | byte :: input =>
      if byte = 0 then
        [.flush .done, .read (.byte byte)]
      else
        .flush .done :: .read (.byte byte) :: .write byte .accepted :: echoCalls input

theorem echoCalls_cons_of_ne {byte : UInt8} (h : byte ≠ 0) (input : List UInt8) :
    echoCalls (byte :: input) =
      [Event.flush .done, .read (.byte byte), .write byte .accepted] ++ echoCalls input :=
  if_neg h

theorem filterMap_echoCalls (input : List UInt8) :
    (echoCalls input).filterMap Event.delivered? = input.takeWhile (· ≠ 0) := by
  induction input with
  | nil => rfl
  | cons byte input ih =>
      by_cases hzero : byte = 0
      · subst hzero
        rfl
      · rw [echoCalls_cons_of_ne hzero, List.filterMap_append, ih,
          List.takeWhile_cons_of_pos (by simpa using hzero)]
        rfl

theorem countP_echoCalls (input : List UInt8) :
    (echoCalls input).countP Event.isRead = (input.takeWhile (· ≠ 0)).length + 1 := by
  induction input with
  | nil => rfl
  | cons byte input ih =>
      by_cases hzero : byte = 0
      · subst hzero
        rfl
      · rw [echoCalls_cons_of_ne hzero, List.countP_append, ih,
          List.takeWhile_cons_of_pos (by simpa using hzero), List.length_cons]
        exact Nat.add_comm 1 _

/-- Directly in front of every read there is a flush. -/
def FlushBeforeEachRead (calls : List Event) : Prop :=
  ∀ (i : Nat) (outcome : ReadOutcome), calls[i]? = some (Event.read outcome) →
    ∃ j, i = j + 1 ∧ calls[j]? = some (Event.flush .done)

theorem FlushBeforeEachRead.append {calls more : List Event} (h : FlushBeforeEachRead calls)
    (hmore : FlushBeforeEachRead more) : FlushBeforeEachRead (calls ++ more) := by
  intro i outcome hi
  rcases Nat.lt_or_ge i calls.length with hlt | hge
  · rw [List.getElem?_append_left hlt] at hi
    obtain ⟨j, rfl, hj⟩ := h i outcome hi
    exact ⟨j, rfl, by rw [List.getElem?_append_left (Nat.lt_of_succ_lt hlt), hj]⟩
  · rw [List.getElem?_append_right hge] at hi
    obtain ⟨j, hij, hj⟩ := hmore _ outcome hi
    refine ⟨calls.length + j, by omega, ?_⟩
    rw [List.getElem?_append_right (Nat.le_add_right _ _), Nat.add_sub_cancel_left, hj]

theorem flushBeforeEachRead_of_forall {calls : List Event} (h : ∀ call ∈ calls, ¬ call.isRead) :
    FlushBeforeEachRead calls := by
  intro i outcome hi
  exact absurd rfl (h _ (List.mem_of_getElem? hi))

theorem flushBeforeEachRead_pair (outcome : ReadOutcome) :
    FlushBeforeEachRead [.flush .done, .read outcome] := by
  intro i outcome' hi
  match i with
  | 0 => simp at hi
  | 1 => exact ⟨0, rfl, rfl⟩
  | i + 2 => simp at hi

theorem flushBeforeEachRead_echoCalls (input : List UInt8) :
    FlushBeforeEachRead (echoCalls input) := by
  induction input with
  | nil => exact flushBeforeEachRead_pair .endOfInput
  | cons byte input ih =>
      by_cases hzero : byte = 0
      · subst hzero
        exact flushBeforeEachRead_pair (.byte 0)
      · have hwrite : FlushBeforeEachRead [.write byte .accepted] := by
          apply flushBeforeEachRead_of_forall
          simp [Event.isRead]
        rw [echoCalls_cons_of_ne hzero]
        exact ((flushBeforeEachRead_pair (.byte byte)).append hwrite).append ih

/-! ## The loop over the input -/

namespace Block

/-- A byte is read, and as long as it is not zero, it is written and the next one is read:
`,[.,]`. -/
def echo : Block :=
  act .input (loop (act .output (act .input done)) done)

variable {s : Streams} {byte : UInt8} {input : List UInt8}

/-- The program ends at once if it reads a zero or meets the end of the input. -/
theorem executes_echo_of_zero {outcome : ReadOutcome} (h : s.Accepting)
    (hread : s.reads.headD .endOfInput = outcome)
    (hzero : outcome = .byte 0 ∨ outcome = .endOfInput) (tape : Tape) (steps : Nat)
    (events : List Event) :
    ∃ s' : Streams, s'.Accepting ∧ Executes .zero echo ⟨tape, s, steps, events⟩
      ⟨tape.set 0, s', steps + 2, events ++ [Event.flush .done, .read outcome]⟩ := by
  have hinput := h.perform_input tape hread (hzero.imp_right fun h => ⟨h, rfl⟩)
  refine ⟨_, h.after_input, .act hinput (.skip ?_ (.done _))⟩
  exact tape.get_set 0

/-- A byte that is not zero is read and written in three steps, and then the rest of the input is
echoed. -/
theorem executes_echo_cons (h : s.Delivers (byte :: input)) (hbyte : byte ≠ 0) (tape : Tape)
    (steps : Nat) (events : List Event) :
    ∃ s₁ : Streams, s₁.Delivers input ∧ ∀ w,
      Executes .zero echo ⟨tape.set byte, s₁, steps + 3,
        events ++ [Event.flush .done, .read (.byte byte), .write byte .accepted]⟩ w →
      Executes .zero echo ⟨tape, s, steps, events⟩ w := by
  have hinput := h.toAccepting.perform_input tape h.headD_reads (.inl rfl)
  have houtput := h.after_input.toAccepting.perform_output .zero (tape.set byte)
  have hcell : (tape.set byte).get = byte := tape.get_set byte
  rw [hcell] at houtput
  refine ⟨_, h.after_input.after_output, ?_⟩
  intro w hrest
  have hevents : events ++ [Event.flush .done, .read (.byte byte), .write byte .accepted] =
      events ++ [Event.flush .done, .read (.byte byte)] ++ [Event.write byte .accepted] := by
    rw [List.append_assoc]
    rfl
  rw [hevents] at hrest
  -- the read at the end of the body is the one that the rest of the input is echoed from
  cases hrest with
  | act hnext hloop =>
      apply Executes.act hinput
      apply Executes.again (hcell.trans_ne hbyte)
      · exact .act houtput (.act hnext (.done _))
      · exact hloop

theorem executes_echo (h : s.Delivers input) (tape : Tape) (steps : Nat) (events : List Event) :
    ∃ s' : Streams, s'.Accepting ∧ Executes .zero echo ⟨tape, s, steps, events⟩
      ⟨tape.set 0, s', steps + (2 + 3 * (input.takeWhile (· ≠ 0)).length),
        events ++ echoCalls input⟩ := by
  induction input generalizing s tape steps events with
  | nil =>
      apply executes_echo_of_zero h.toAccepting h.headD_reads_nil
      exact .inr rfl
  | cons byte input ih =>
      by_cases hzero : byte = 0
      · subst hzero
        apply executes_echo_of_zero h.toAccepting h.headD_reads
        exact .inl rfl
      · obtain ⟨s₁, hdelivers, hcons⟩ := executes_echo_cons h hzero tape steps events
        obtain ⟨s', hs', hrest⟩ := ih hdelivers (tape.set byte) (steps + 3)
          (events ++ [Event.flush .done, .read (.byte byte), .write byte .accepted])
        refine ⟨s', hs', ?_⟩
        have hsteps : steps + (2 + 3 * ((byte :: input).takeWhile (· ≠ 0)).length) =
            steps + 3 + (2 + 3 * (input.takeWhile (· ≠ 0)).length) := by
          rw [List.takeWhile_cons_of_pos (by simpa using hzero), List.length_cons]
          omega
        rw [hsteps, echoCalls_cons_of_ne hzero, ← List.append_assoc, ← tape.set_set byte 0]
        exact hcons _ hrest

end Block

/-- The program echoes its input, on every new tape and with all streams that do not fail, if the
end of the input is stored as a zero.  Its run comes to an end without a fault.  The output is the
input up to its first zero, or the whole of it if there is none.  That takes three steps for each
byte and two more, and as many reads as bytes and one more, each of them directly behind a flush.
The tape is what it was at the beginning, zero in all cells with the pointer at the first one. -/
theorem Machine.run_echo {config : Config} {m : Machine} (hnew : new config = .ok m)
    (heof : config.eof = .zero) :
    ∃ p, Program.parse ",[.,]" = .ok p ∧
      ∀ (input : List UInt8) (s : Streams), s.Delivers input →
        ∃ fuel r, m.run p config.eof fuel s = some r ∧ r.fault = none ∧
          r.output = input.takeWhile (· ≠ 0) ∧
          r.machine.steps = 2 + 3 * (input.takeWhile (· ≠ 0)).length ∧
          r.events.countP Event.isRead = (input.takeWhile (· ≠ 0)).length + 1 ∧
          FlushBeforeEachRead r.events ∧
          r.machine.tape.pointer = 0 ∧ r.machine.tape.length = config.tapeLength.val ∧
          ∀ i < config.tapeLength.val, r.machine.tape.cells[i]? = some 0 := by
  obtain ⟨tape, hallocate, rfl⟩ := new_eq_ok_iff.1 hnew
  have hsource : Instruction.ofSource ",[.,]" = Block.echo.code := rfl
  obtain ⟨p, hparse, hp, hcode⟩ := Block.exists_parse hsource
  refine ⟨p, hparse, ?_⟩
  intro input s h
  obtain ⟨s', hs', hexecutes⟩ := Block.executes_echo h tape 0 []
  rw [heof]
  obtain ⟨fuel, r, hr, hend⟩ := hexecutes.exists_run hp hcode
  obtain ⟨hpointer, hzeros⟩ := Tape.zeros_of_allocate? hallocate
  have hlength : tape.length = config.tapeLength.val := (Tape.madeFor_allocate? hallocate).length_eq
  -- the zero that ends the program is stored where a zero was before
  have hget : tape.get = 0 :=
    Option.some.inj (tape.getElem?_pointer.symm.trans (hzeros tape.pointer tape.pointer_lt))
  have htape : r.machine.tape = tape := by
    rw [hend.tape_eq, ← hget, Tape.set_get]
  have hevents : r.events = echoCalls input ++ [Event.flush .done] := by
    rw [hend.events_eq, hs'.headD_flushes]
    rfl
  refine ⟨fuel, r, hr, hend.fault_eq_none hs'.headD_flushes, ?_, ?_, ?_, ?_, ?_, ?_, ?_⟩
  · rw [Report.output, hevents, List.filterMap_append, filterMap_echoCalls]
    exact List.append_nil _
  · rw [hend.steps_eq, Nat.zero_add]
  · rw [hevents, List.countP_append, countP_echoCalls]
    rfl
  · rw [hevents]
    apply (flushBeforeEachRead_echoCalls input).append
    apply flushBeforeEachRead_of_forall
    simp [Event.isRead]
  · rw [htape, hpointer]
  · rw [htape, hlength]
  · rw [htape, ← hlength]
    exact hzeros

/-- The zero in the input ends the program, and what stands behind it is not read. -/
theorem Machine.run_echo_zero_in_input :
    let config : Config := { tapeLength := ⟨1, by decide, by decide⟩ }
    ∃ (p : Program) (m : Machine) (fuel : Nat) (r : Report),
      Program.parse ",[.,]" = .ok p ∧ new config = .ok m ∧ config.eof = .zero ∧
      (Streams.ofInput [7, 0, 9]).Delivers [7, 0, 9] ∧
      m.run p .zero fuel (.ofInput [7, 0, 9]) = some r ∧ r.fault = none ∧ r.output = [7] ∧
      r.machine.steps = 5 ∧ r.events.countP Event.isRead = 2 ∧ FlushBeforeEachRead r.events ∧
      r.machine.tape.cells[0]? = some 0 := by
  intro config
  let m : Machine := { tape := ⟨#[0], 0, .bounded, by decide⟩ }
  have hnew : new config = .ok m := by rfl
  have hdelivers : (Streams.ofInput [7, 0, 9]).Delivers [7, 0, 9] := Streams.delivers_ofInput _
  obtain ⟨p, hparse, hruns⟩ := run_echo hnew rfl
  obtain ⟨fuel, r, hr, hfault, houtput, hsteps, hreads, hflushes, -, -, hzeros⟩ :=
    hruns [7, 0, 9] (.ofInput [7, 0, 9]) hdelivers
  have hwritten : ([7, 0, 9] : List UInt8).takeWhile (· ≠ 0) = [7] := by decide
  rw [hwritten] at houtput hsteps hreads
  exact ⟨p, m, fuel, r, hparse, hnew, rfl, hdelivers, hr, hfault, houtput, hsteps, hreads,
    hflushes, hzeros 0 (by decide)⟩

end TapeMachine
