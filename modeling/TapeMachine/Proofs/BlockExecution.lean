import TapeMachine.Proofs.StructuredRun

/-!
# Executions that come to their end

A block that is executed without a fault leads from one world to another.  `Block.Executes` are the
rules for this, without fuel and without addresses: an action is performed, a loop on a zero cell is
skipped, and a loop on another cell has its body executed and is then executed again.  Arriving at a
loop and testing its cell behind the body are one and the same here, since both cost one step.
The rules derive what structured execution computes without a fault, and so the machine ends its run
that way.

Blocks that make no stream calls are described by their tapes alone, `Block.Turns`.  If the body of
a loop takes each tape of a finite sequence to the one before it, the loop takes the last one to the
first.
-/

namespace TapeMachine

namespace Block

/-- Executing the block leads from one world to another, without a fault. -/
inductive Executes (eof : EofPolicy) : Block → World → World → Prop where
  | done (w : World) : Executes eof done w w
  | act {action : Action} {rest : Block} {w w' : World} {tape : Tape} {s : Streams}
      {made : List Event} (h : action.perform eof w.tape w.streams = ⟨.ok tape, s, made⟩)
      (hrest : Executes eof rest ⟨tape, s, w.steps + 1, w.events ++ made⟩ w') :
      Executes eof (act action rest) w w'
  | skip {body rest : Block} {w w' : World} (hcell : w.tape.get = 0)
      (hrest : Executes eof rest w.tick w') : Executes eof (loop body rest) w w'
  | again {body rest : Block} {w between w' : World} (hcell : w.tape.get ≠ 0)
      (hbody : Executes eof body w.tick between)
      (hloop : Executes eof (loop body rest) between w') : Executes eof (loop body rest) w w'

variable {eof : EofPolicy} {b body rest : Block} {w w' : World}

theorem Executes.exists_eval (h : Executes eof b w w') :
    ∃ fuel, ∀ address, b.eval eof fuel address w = some { world := w' } := by
  induction h with
  | done w => exact ⟨0, fun _ => rfl⟩
  | act h _ ih =>
      obtain ⟨fuel, ih⟩ := ih
      refine ⟨fuel, fun address => ?_⟩
      rw [eval, World.perform, h]
      exact ih (address + 1)
  | @skip body rest w w' hcell _ ih =>
      obtain ⟨fuel, ih⟩ := ih
      refine ⟨fuel, fun address => ?_⟩
      rw [eval, World.test, if_pos hcell]
      exact ih _
  | @again body rest w between w' hcell _ _ ihbody ihloop =>
      obtain ⟨fuel, ihbody⟩ := ihbody
      obtain ⟨more, ihloop⟩ := ihloop
      -- one round more than the rest of the loop takes, and fuel enough for every round
      let enough := max fuel more + 1
      have hfuel : fuel ≤ enough := (Nat.le_max_left fuel more).trans (Nat.le_succ _)
      have hmore : more ≤ enough := (Nat.le_max_right fuel more).trans (Nat.le_succ _)
      refine ⟨enough, fun address => ?_⟩
      obtain ⟨v, hrounds, hrest⟩ := Option.bind_eq_some_iff.1 (ihloop address)
      have hagain : w.test (rounds (body.eval eof enough (address + 1)) enough) = some v := by
        rw [World.test, if_neg hcell]
        refine Option.bind_eq_some_iff.2 ⟨{ world := between }, ?_, ?_⟩
        · exact eval_mono hfuel (ihbody (address + 1))
        · refine World.test_mono (fun w v => ?_) hrounds
          exact rounds_mono (fun w v => eval_mono hmore) (Nat.le_max_right fuel more)
      refine Option.bind_eq_some_iff.2 ⟨v, hagain, ?_⟩
      exact Verdict.andThen_mono (fun w v => eval_mono hmore) hrest

theorem executes_of_test {inside : World → Option Verdict} {fuel : Nat} {v : Verdict}
    (hbody : ∀ w v, inside w = some v → v.fault = none → Executes eof body w v.world)
    (h : w.test (rounds inside fuel) = some v) (hfault : v.fault = none)
    (hrest : Executes eof rest v.world w') : Executes eof (loop body rest) w w' := by
  have hskip {w : World} {fuel : Nat} (hcell : w.tape.get = 0)
      (h : w.test (rounds inside fuel) = some v) : Executes eof (loop body rest) w w' := by
    rw [World.test, if_pos hcell] at h
    obtain rfl := Option.some.inj h
    exact .skip hcell hrest
  induction fuel generalizing w with
  | zero =>
      by_cases hcell : w.tape.get = 0
      · exact hskip hcell h
      · rw [World.test, if_neg hcell] at h
        contradiction
  | succ fuel ih =>
      by_cases hcell : w.tape.get = 0
      · exact hskip hcell h
      · rw [World.test, if_neg hcell] at h
        obtain ⟨u, hu, hv⟩ := Option.bind_eq_some_iff.1 h
        rcases Verdict.andThen_eq_some_iff.1 hv with ⟨hnone, hagain⟩ | ⟨hsome, rfl⟩
        · exact .again hcell (hbody _ u hu hnone) (ih hagain)
        · rw [hfault] at hsome
          contradiction

theorem executes_of_eval {fuel address : Nat} {v : Verdict}
    (h : b.eval eof fuel address w = some v) (hfault : v.fault = none) :
    Executes eof b w v.world := by
  induction b generalizing address w v with
  | done =>
      obtain rfl := Option.some.inj h
      exact .done w
  | act action rest ih =>
      rw [eval, World.perform] at h
      split at h
      · next hperform => exact .act hperform (ih h hfault)
      · obtain rfl := Option.some.inj h
        contradiction
  | loop body rest ihbody ihrest =>
      obtain ⟨u, hu, hv⟩ := Option.bind_eq_some_iff.1 h
      rcases Verdict.andThen_eq_some_iff.1 hv with ⟨hnone, hrest⟩ | ⟨hsome, rfl⟩
      · exact executes_of_test (fun _ _ => ihbody) hu hnone (ihrest hrest hfault)
      · rw [hfault] at hsome
        contradiction

/-- The rules derive exactly the executions that are computed and have no fault. -/
theorem executes_iff (address : Nat) :
    Executes eof b w w' ↔ ∃ fuel, b.eval eof fuel address w = some { world := w' } := by
  constructor
  · intro h
    obtain ⟨fuel, heval⟩ := h.exists_eval
    exact ⟨fuel, heval address⟩
  · rintro ⟨fuel, h⟩
    exact executes_of_eval h rfl

end Block

/-! ## The runs of their programs -/

namespace Streams

theorem flush_eq (s : Streams) :
    s.flush =
      match s.flushes.headD .done with
      | .done => ⟨.ok (), { s with flushes := s.flushes.tail }, [.flush .done]⟩
      | .failure e => ⟨.error e, { s with flushes := s.flushes.tail }, [.flush (.failure e)]⟩ := by
  obtain ⟨reads, writes, _ | ⟨_ | e, flushes⟩⟩ := s <;> rfl

theorem events_flush (s : Streams) : s.flush.events = [.flush (s.flushes.headD .done)] := by
  rw [flush_eq]
  cases s.flushes.headD .done <;> rfl

theorem result_flush {s : Streams} (h : s.flushes.headD .done = .done) :
    s.flush.result = .ok () := by
  rw [flush_eq, h]

end Streams

/-- The report of a run whose instructions lead to the world `w`.  All that is left to do there is
to flush the output. -/
structure Report.EndsIn (r : Report) (w : World) : Prop where
  tape_eq : r.machine.tape = w.tape
  steps_eq : r.machine.steps = w.steps
  events_eq : r.events = w.events ++ [Event.flush (w.streams.flushes.headD .done)]
  fault_eq_none : w.streams.flushes.headD .done = .done → r.fault = none

theorem Report.endsIn_of_verdict {r : Report} {w : World} {size : Nat}
    (h : r.verdict = Verdict.finish size { world := w }) : r.EndsIn w where
  tape_eq := congrArg (fun v => v.world.tape) h
  steps_eq := congrArg (fun v => v.world.steps) h
  events_eq := by
    rw [← w.streams.events_flush]
    exact congrArg (fun v => v.world.events) h
  fault_eq_none hflush := by
    have hfault : r.fault = (Verdict.finish size { world := w }).fault := congrArg Verdict.fault h
    rw [hfault, Verdict.finish, Streams.result_flush hflush]
    rfl

namespace Block

variable {p : Program} {eof : EofPolicy} {b : Block} {w : World} {tape : Tape} {s : Streams}

/-- A text whose instructions are those of a block is accepted. -/
theorem exists_parse {source : String} (h : Instruction.ofSource source = b.code) :
    ∃ p, Program.parse source = .ok p ∧ p.Paired ∧ b.code = p.code.toList := by
  obtain ⟨p, hparse⟩ : ∃ p, Program.parse source = .ok p := by
    rw [Program.exists_parse_iff, h]
    exact b.waiting_foldl_code {}
  refine ⟨p, hparse, Program.paired_of_parse hparse, ?_⟩
  rw [Program.toList_code_of_parse hparse, h]

theorem Executes.exists_run (hp : p.Paired) (hcode : b.code = p.code.toList)
    (h : Executes eof b { tape, streams := s } w) :
    ∃ fuel r, Machine.run p eof fuel { tape } s = some r ∧ r.EndsIn w := by
  obtain ⟨enough, heval⟩ := (executes_iff 0).1 h
  have hrun : b.run eof enough tape s = some (Verdict.finish b.size { world := w }) := by
    rw [Block.run, heval, Option.map_some]
  obtain ⟨fuel, r, hr, hverdict⟩ := (exists_run_iff hp hcode).2 ⟨enough, hrun⟩
  exact ⟨fuel, r, hr, Report.endsIn_of_verdict hverdict⟩

/-! ## Blocks without stream calls -/

/-- Executing the block turns one tape into another, whatever the streams are, and calls none of
them. -/
def Turns (eof : EofPolicy) (b : Block) (tape tape' : Tape) : Prop :=
  ∀ s steps events, ∃ steps', Executes eof b ⟨tape, s, steps, events⟩ ⟨tape', s, steps', events⟩

namespace Turns

variable {body rest : Block} {action : Action} {tape between tape' : Tape}

theorem done (tape : Tape) : Turns eof done tape tape :=
  fun _ steps _ => ⟨steps, .done _⟩

theorem act (h : ∀ s, action.perform eof tape s = { result := .ok between, streams := s })
    (hrest : Turns eof rest between tape') : Turns eof (act action rest) tape tape' := by
  intro s steps events
  obtain ⟨steps', hexecutes⟩ := hrest s (steps + 1) (events ++ [])
  rw [List.append_nil] at hexecutes
  refine ⟨steps', Executes.act (h s) ?_⟩
  rwa [List.append_nil]

theorem increment (hrest : Turns eof rest tape.increment tape') :
    Turns eof (.act .increment rest) tape tape' :=
  act (fun _ => rfl) hrest

theorem decrement (hrest : Turns eof rest tape.decrement tape') :
    Turns eof (.act .decrement rest) tape tape' :=
  act (fun _ => rfl) hrest

theorem moveRight (h : tape.moveRight = .ok between) (hrest : Turns eof rest between tape') :
    Turns eof (.act .moveRight rest) tape tape' := by
  apply act _ hrest
  intro s
  rw [Action.perform, h]
  rfl

theorem moveLeft (h : tape.moveLeft = .ok between) (hrest : Turns eof rest between tape') :
    Turns eof (.act .moveLeft rest) tape tape' := by
  apply act _ hrest
  intro s
  rw [Action.perform, h]
  rfl

theorem skip (hcell : tape.get = 0) (hrest : Turns eof rest tape tape') :
    Turns eof (loop body rest) tape tape' := by
  intro s steps events
  obtain ⟨steps', hexecutes⟩ := hrest s (steps + 1) events
  exact ⟨steps', .skip hcell hexecutes⟩

theorem again (hcell : tape.get ≠ 0) (hbody : Turns eof body tape between)
    (hloop : Turns eof (loop body rest) between tape') :
    Turns eof (loop body rest) tape tape' := by
  intro s steps events
  obtain ⟨more, hround⟩ := hbody s (steps + 1) events
  obtain ⟨steps', hrounds⟩ := hloop s more events
  exact ⟨steps', .again hcell hround hrounds⟩

/-- A loop whose body goes down a sequence of tapes by one, the current cell being zero at the end
of it only. -/
theorem countdown {tapes : Nat → Tape} {n : Nat} (hzero : (tapes 0).get = 0)
    (hnonzero : ∀ k < n, (tapes (k + 1)).get ≠ 0)
    (hbody : ∀ k < n, Turns eof body (tapes (k + 1)) (tapes k))
    (hrest : Turns eof rest (tapes 0) tape') : Turns eof (loop body rest) (tapes n) tape' := by
  induction n with
  | zero => exact skip hzero hrest
  | succ n ih =>
      have hloop : Turns eof (loop body rest) (tapes n) tape' := by
        apply ih
        · exact fun k hk => hnonzero k (hk.trans n.lt_succ_self)
        · exact fun k hk => hbody k (hk.trans n.lt_succ_self)
      exact again (hnonzero n n.lt_succ_self) (hbody n n.lt_succ_self) hloop

end Turns

end Block

end TapeMachine
