import TapeMachine.Proofs.Structured

/-!
# The machine executes blocks

A block stands in a program as a stretch of code with its loops entered in the jump table.  From the
front of the stretch the machine gets behind it in the world that structured execution leads to,
with the loops around the stretch on its stack, or it ends with the same fault: this goes by
recursion on the block, and for a loop by induction on its rounds.  Conversely an execution of the
machine that ends is finite, so every loop in it takes finitely many rounds, and structured
execution comes to a verdict.
-/

namespace TapeMachine

open Moment

variable {p : Program} {eof : EofPolicy} {c d : Moment} {w : World} {v u : Verdict}
  {address target start stop fuel n : Nat} {loops : List Nat} {a : Attempt}

/-! ## Single instructions -/

theorem Moment.after_one_of_step {m : Machine}
    (h : Machine.Step p eof c.machine c.streams { machine := m, streams := c.streams }) :
    c.after p eof 1 = some ⟨m, c.streams, c.events⟩ :=
  after_one (next?_eq_some_iff.2 ⟨[], h.step?_eq, (List.append_nil _).symm⟩)

namespace World

theorem after_skip (h : p.code[address]? = some .loopStart)
    (htarget : p.jumpTarget? address = some target) (hcell : w.tape.get = 0) :
    (w.moment address loops).after p eof 1 = some (w.tick.moment (target + 1) loops) :=
  after_one_of_step (.skip h hcell htarget)

theorem after_enter (h : p.code[address]? = some .loopStart) (hcell : w.tape.get ≠ 0) :
    (w.moment address loops).after p eof 1 =
      some (w.tick.moment (address + 1) (address :: loops)) :=
  after_one_of_step (.enter h hcell)

theorem after_leave (h : p.code[stop]? = some .loopEnd) (hcell : w.tape.get = 0) :
    (w.moment stop (start :: loops)).after p eof 1 = some (w.tick.moment (stop + 1) loops) :=
  after_one_of_step (.leave h rfl hcell)

theorem after_again (h : p.code[stop]? = some .loopEnd) (hcell : w.tape.get ≠ 0) :
    (w.moment stop (start :: loops)).after p eof 1 =
      some (w.tick.moment (start + 1) (start :: loops)) :=
  after_one_of_step (.again h rfl hcell)

end World

/-- The machine does what the verdict says: it gets from `c` to `address` inside the given loops, or
its execution ends with the fault. -/
def Arrives (p : Program) (eof : EofPolicy) (c : Moment) (address : Nat) (loops : List Nat)
    (v : Verdict) : Prop :=
  match v.fault with
  | none => ∃ n, c.after p eof n = some (v.world.moment address loops)
  | some _ => ∃ n a, EndsAfter p eof n c a ∧ a.verdict = v

namespace Arrives

theorem of_after (hc : c.after p eof n = some d) (h : Arrives p eof d address loops v) :
    Arrives p eof c address loops v := by
  unfold Arrives at h ⊢
  split at h
  · obtain ⟨k, hk⟩ := h
    exact ⟨n + k, after_trans hc hk⟩
  · obtain ⟨k, a, ha, hv⟩ := h
    exact ⟨n + k, a, ha.of_after hc, hv⟩

theorem exists_after (h : Arrives p eof c address loops v) (hfault : v.fault = none) :
    ∃ n, c.after p eof n = some (v.world.moment address loops) := by
  unfold Arrives at h
  rwa [hfault] at h

theorem andThen {inner : List Nat} {next : World → Option Verdict}
    (h : Arrives p eof c address inner v) (hu : v.andThen next = some u)
    (hnext : ∀ u, next v.world = some u →
      Arrives p eof (v.world.moment address inner) target loops u) :
    Arrives p eof c target loops u := by
  rcases Verdict.andThen_eq_some_iff.1 hu with ⟨hnone, hrest⟩ | ⟨hsome, rfl⟩
  · obtain ⟨n, hn⟩ := h.exists_after hnone
    exact (hnext u hrest).of_after hn
  · obtain ⟨fault, hfault⟩ := Option.isSome_iff_exists.1 hsome
    unfold Arrives at h ⊢
    rwa [hfault] at h ⊢

theorem test {inside : World → Option Verdict} {inner : List Nat}
    (hzero : w.tape.get = 0 → c.after p eof 1 = some (w.tick.moment target loops))
    (hnonzero : w.tape.get ≠ 0 → c.after p eof 1 = some (w.tick.moment address inner))
    (hinside : ∀ {w v}, inside w = some v →
      Arrives p eof (w.moment address inner) target loops v)
    (h : w.test inside = some v) : Arrives p eof c target loops v := by
  unfold World.test at h
  split at h
  · next hcell =>
      obtain rfl := Option.some.inj h
      exact ⟨1, hzero hcell⟩
  · next hcell => exact (hinside h).of_after (hnonzero hcell)

theorem exists_andThen {inner : List Nat} {next : Nat → World → Option Verdict}
    (h : Arrives p eof c address inner v) (hends : EndsAfter p eof n c a)
    (hnext : ∀ k ≤ n, EndsAfter p eof k (v.world.moment address inner) a →
      ∃ fuel u, next fuel v.world = some u) :
    ∃ fuel u, v.andThen (next fuel) = some u := by
  cases hfault : v.fault with
  | none =>
      obtain ⟨m, hm⟩ := h.exists_after hfault
      obtain ⟨k, rfl, hk⟩ := hends.drop hm
      obtain ⟨fuel, u, hu⟩ := hnext k (Nat.le_add_left k m) hk
      exact ⟨fuel, u, Verdict.andThen_eq_some_iff.2 (.inl ⟨hfault, hu⟩)⟩
  | some fault =>
      exact ⟨0, v, Verdict.andThen_eq_some_iff.2 (.inr ⟨by simp [hfault], rfl⟩)⟩

end Arrives

theorem World.exists_test {inside : Nat → World → Option Verdict} {inner : List Nat}
    (hends : EndsAfter p eof n c a)
    (hnonzero : w.tape.get ≠ 0 → c.after p eof 1 = some (w.tick.moment address inner))
    (hinside : ∀ k < n, EndsAfter p eof k (w.tick.moment address inner) a →
      ∃ fuel v, inside fuel w.tick = some v) :
    ∃ fuel v, w.test (inside fuel) = some v := by
  by_cases hcell : w.tape.get = 0
  · exact ⟨0, _, if_pos hcell⟩
  · obtain ⟨k, rfl, hk⟩ := hends.drop (hnonzero hcell)
    obtain ⟨fuel, v, hv⟩ := hinside k (by omega) hk
    exact ⟨fuel, v, (if_neg hcell).trans hv⟩

theorem World.arrives_perform {action : Action}
    (h : p.code[address]? = some action.toInstruction) :
    Arrives p eof (w.moment address loops) (address + 1) loops (w.perform eof address action) := by
  let m : Machine := (w.moment address loops).machine
  have hstep : m.step? p eof w.streams = some (m.carryOut (action.perform eof w.tape w.streams)) :=
    (Machine.Step.action h).step?_eq
  unfold World.perform
  generalize action.perform eof w.tape w.streams = effect at hstep ⊢
  obtain ⟨obstacle | tape, s, made⟩ := effect
  · let last : Attempt := ⟨m, s, w.events ++ made, some (obstacle.faultAt address)⟩
    have hlast : (w.moment address loops).ending? p eof = some last :=
      ending?_eq_some_iff.2 (.inr ⟨made, _, hstep, rfl, rfl⟩)
    exact ⟨0, last, .of_ending? hlast, rfl⟩
  · exact ⟨1, after_one (next?_eq_some_iff.2 ⟨made, hstep, rfl⟩)⟩

namespace Block

/-! ## Verdicts hold of the machine -/

theorem rounds_sound {body : World → Option Verdict} (hend : p.code[stop]? = some .loopEnd)
    (hbody : ∀ w v, body w = some v →
      Arrives p eof (w.moment (start + 1) (start :: loops)) stop (start :: loops) v)
    (h : rounds body fuel w = some v) :
    Arrives p eof (w.moment (start + 1) (start :: loops)) (stop + 1) loops v := by
  induction fuel generalizing w v with
  | zero => contradiction
  | succ fuel ih =>
      obtain ⟨u, hu, hv⟩ := Option.bind_eq_some_iff.1 h
      refine (hbody w u hu).andThen hv fun v hv => ?_
      exact .test (World.after_leave hend) (World.after_again hend) ih hv

theorem loop_sound {body : World → Option Verdict} (hstart : p.code[start]? = some .loopStart)
    (htarget : p.jumpTarget? start = some stop) (hend : p.code[stop]? = some .loopEnd)
    (hbody : ∀ w v, body w = some v →
      Arrives p eof (w.moment (start + 1) (start :: loops)) stop (start :: loops) v)
    (h : w.test (rounds body fuel) = some v) :
    Arrives p eof (w.moment start loops) (stop + 1) loops v :=
  .test (World.after_skip hstart htarget) (World.after_enter hstart) (rounds_sound hend hbody) h

theorem eval_sound {b : Block} (hplaced : b.Placed p address)
    (h : b.eval eof fuel address w = some v) :
    Arrives p eof (w.moment address loops) (address + b.size) loops v := by
  induction b generalizing address w v loops with
  | done =>
      obtain rfl := Option.some.inj h
      exact ⟨0, rfl⟩
  | act action rest ih =>
      obtain ⟨hcode, hrest⟩ := hplaced
      have hsize : address + (act action rest).size = address + 1 + rest.size := by
        rw [size_act]
        omega
      rw [hsize]
      exact (World.arrives_perform hcode).andThen h fun v hv => ih hrest hv
  | loop body rest ihbody ihrest =>
      obtain ⟨hstart, htarget, hbody, hend, hrest⟩ := hplaced
      obtain ⟨u, hu, hv⟩ := Option.bind_eq_some_iff.1 h
      have hloop : Arrives p eof (w.moment address loops) (address + 1 + body.size + 1) loops u :=
        loop_sound hstart htarget hend (fun w v => ihbody hbody) hu
      have hsize : address + (loop body rest).size =
          address + 1 + body.size + 1 + rest.size := by
        rw [size_loop]
        omega
      rw [hsize]
      exact hloop.andThen hv fun v hv => ihrest hrest hv

/-! ## An execution that ends has a verdict -/

theorem exists_rounds {body : Nat → World → Option Verdict}
    (hend : p.code[stop]? = some .loopEnd)
    (hmono : ∀ {fuel more w v}, fuel ≤ more → body fuel w = some v → body more w = some v)
    (hsound : ∀ fuel w v, body fuel w = some v →
      Arrives p eof (w.moment (start + 1) (start :: loops)) stop (start :: loops) v)
    (hbody : ∀ n w, EndsAfter p eof n (w.moment (start + 1) (start :: loops)) a →
      ∃ fuel v, body fuel w = some v)
    (hends : EndsAfter p eof n (w.moment (start + 1) (start :: loops)) a) :
    ∃ fuel v, rounds (body fuel) fuel w = some v := by
  -- every further round leaves a shorter rest of the execution
  induction n using Nat.strong_induction_on generalizing w with
  | h n ih =>
      obtain ⟨first, v, hv⟩ := hbody n w hends
      obtain ⟨fuel, u, hu⟩ : ∃ fuel u,
          v.andThen (World.test (rounds (body fuel) fuel)) = some u := by
        refine (hsound first w v hv).exists_andThen hends fun k hk hrest => ?_
        refine World.exists_test hrest (World.after_again hend) fun j hj hagain => ?_
        exact ih j (by omega) hagain
      let more := max first fuel
      have hfirst : first ≤ more + 1 := (Nat.le_max_left first fuel).trans (Nat.le_succ _)
      have hfuel : fuel ≤ more := Nat.le_max_right first fuel
      refine ⟨more + 1, u, Option.bind_eq_some_iff.2 ⟨v, hmono hfirst hv, ?_⟩⟩
      refine Verdict.andThen_mono (fun w u => World.test_mono fun w u => ?_) hu
      exact rounds_mono (fun w v => hmono (hfuel.trans (Nat.le_succ _))) hfuel

theorem exists_eval {b : Block} (hplaced : b.Placed p address)
    (hends : EndsAfter p eof n (w.moment address loops) a) :
    ∃ fuel v, b.eval eof fuel address w = some v := by
  induction b generalizing address w loops n with
  | done => exact ⟨0, _, rfl⟩
  | act action rest ih =>
      obtain ⟨hcode, hrest⟩ := hplaced
      exact (World.arrives_perform hcode).exists_andThen hends fun k _ hk => ih hrest hk
  | loop body rest ihbody ihrest =>
      obtain ⟨hstart, htarget, hbody, hend, hrest⟩ := hplaced
      have hsound (fuel : Nat) (w : World) (v : Verdict)
          (h : body.eval eof fuel (address + 1) w = some v) :
          Arrives p eof (w.moment (address + 1) (address :: loops)) (address + 1 + body.size)
            (address :: loops) v :=
        eval_sound hbody h
      obtain ⟨first, u, hu⟩ : ∃ fuel u,
          w.test (rounds (body.eval eof fuel (address + 1)) fuel) = some u := by
        refine World.exists_test hends (World.after_enter hstart) fun k _ hk => ?_
        exact exists_rounds hend (fun hle => eval_mono hle) hsound (fun n w => ihbody hbody) hk
      have hloop : Arrives p eof (w.moment address loops) (address + 1 + body.size + 1) loops u :=
        loop_sound hstart htarget hend (hsound first) hu
      obtain ⟨fuel, v, hv⟩ := hloop.exists_andThen hends fun k _ hk => ihrest hrest hk
      let more := max first fuel
      have hfirst : first ≤ more := Nat.le_max_left first fuel
      have hfuel : fuel ≤ more := Nat.le_max_right first fuel
      refine ⟨more, v, Option.bind_eq_some_iff.2 ⟨u, ?_, ?_⟩⟩
      · exact World.test_mono (fun w v => rounds_mono (fun w v => eval_mono hfirst) hfirst) hu
      · exact Verdict.andThen_mono (fun w v => eval_mono hfuel) hv

end Block

/-! ## Whole runs -/

theorem Arrives.exists_endsAfter (h : Arrives p eof c p.size loops v) :
    ∃ n a, EndsAfter p eof n c a ∧ (Machine.finish a).verdict = v.finish p.size := by
  cases hfault : v.fault with
  | none =>
      obtain ⟨n, hn⟩ := h.exists_after hfault
      have hnone : (v.world.moment p.size loops).machine.step? p eof v.world.streams = none :=
        Machine.step?_eq_none_iff.2 le_rfl
      refine ⟨n, _, ⟨_, hn, ending?_eq_some_iff.2 (.inl ⟨hnone, rfl⟩)⟩, ?_⟩
      simp only [Machine.finish, Report.verdict, Verdict.finish, hfault]
      rfl
  | some fault =>
      unfold Arrives at h
      rw [hfault] at h
      obtain ⟨n, a, ha, rfl⟩ := h
      refine ⟨n, a, ha, ?_⟩
      have hsome : a.fault = some fault := hfault
      simp only [Machine.finish, Report.verdict, Verdict.finish, Attempt.verdict, hsome,
        Option.some_or]

/-- A new machine's run of a block's code comes to a report if structured execution of the block
comes to a verdict, and then they are the same. -/
theorem Block.exists_run_iff {b : Block} (hp : p.Paired) (hcode : b.code = p.code.toList)
    {tape : Tape} {s : Streams} :
    (∃ fuel r, Machine.run p eof fuel { tape } s = some r ∧ r.verdict = v) ↔
      ∃ fuel, b.run eof fuel tape s = some v := by
  have hwhole : p.code.toList = [] ++ b.code ++ [] := by simp [hcode]
  have hplaced : b.Placed p 0 := placed_of_code hp b hwhole
  have hsize : b.size = p.size := by
    rw [size, hcode, Array.length_toList, Program.size]
  let w : World := { tape, streams := s }
  have harrives {fuel : Nat} {u : Verdict} (h : b.eval eof fuel 0 w = some u) :
      Arrives p eof (w.moment 0 []) p.size [] u := by
    have hsound : Arrives p eof (w.moment 0 []) (0 + b.size) [] u := eval_sound hplaced h
    rwa [Nat.zero_add, hsize] at hsound
  constructor
  · rintro ⟨fuel, r, hr, rfl⟩
    obtain ⟨n, a, hends, rfl⟩ := Machine.exists_run_eq_some_iff.1 ⟨fuel, hr⟩
    obtain ⟨more, u, hu⟩ := exists_eval (w := w) hplaced hends
    obtain ⟨m, a', hends', hverdict⟩ := (harrives hu).exists_endsAfter
    -- one execution has only one end
    obtain rfl : a = a' := hends.unique hends'
    refine ⟨more, Option.map_eq_some_iff.2 ⟨u, hu, ?_⟩⟩
    rw [hsize]
    exact hverdict.symm
  · rintro ⟨fuel, h⟩
    obtain ⟨u, hu, rfl⟩ := Option.map_eq_some_iff.1 h
    obtain ⟨n, a, hends, hverdict⟩ := (harrives hu).exists_endsAfter
    obtain ⟨more, hrun⟩ := Machine.exists_run_eq_some_iff.2 ⟨n, a, hends, rfl⟩
    refine ⟨more, _, hrun, ?_⟩
    rw [hsize]
    exact hverdict

/-- A program without stray loop ends is the code of exactly one block, and to run it is to execute
that block: on every tape that can be allocated and with whatever the streams do, a new machine's
run stops if and only if structured execution stops, and then the fault, the stream calls, the tape
and the number of steps are the same. -/
theorem Machine.run_eq_structured {source : String} (hparse : Program.parse source = .ok p)
    (hstray : ∀ address, ¬ p.IsStray address) :
    ∃ b : Block, b.code = Instruction.ofSource source ∧
      (∀ c : Block, c.code = Instruction.ofSource source → c = b) ∧
      ∀ config m, Machine.new config = .ok m → ∀ s v,
        (∃ fuel r, m.run p config.eof fuel s = some r ∧ r.verdict = v) ↔
          ∃ fuel, b.run config.eof fuel m.tape s = some v := by
  have hp : p.Paired := Program.paired_of_parse hparse
  have hsource : p.code.toList = Instruction.ofSource source := Program.toList_code_of_parse hparse
  obtain ⟨b, hcode⟩ := Block.exists_code_eq hp hstray
  refine ⟨b, hcode.trans hsource, ?_, ?_⟩
  · intro c hc
    exact Block.code_injective (hc.trans (hcode.trans hsource).symm)
  · intro config m hnew s v
    obtain ⟨tape, -, rfl⟩ := new_eq_ok_iff.1 hnew
    exact Block.exists_run_iff hp hcode

/-- The loop is entered twice, and the second write fails. -/
theorem Machine.run_eq_structured_failed_write :
    ∃ (p : Program) (m : Machine) (s : Streams) (b : Block) (r : Report),
      Program.parse "++[.-]" = .ok p ∧ (∀ address, ¬ p.IsStray address) ∧
      Machine.new { tapeLength := ⟨2, by decide, by decide⟩ } = .ok m ∧
      b.code = Instruction.ofSource "++[.-]" ∧
      m.run p .zero 10 s = some r ∧ r.fault = some (.stream 3 (.ofKind .brokenPipe)) ∧
      ∃ fuel, b.run .zero fuel m.tape s = some r.verdict := by
  let p : Program :=
    { code := #[.increment, .increment, .loopStart, .output, .decrement, .loopEnd]
      jumps := #[none, none, some 5, none, none, none]
      size_jumps := rfl }
  let m : Machine := { tape := ⟨#[0, 0], 0, .bounded, by decide⟩ }
  let e : StreamError := .ofKind .brokenPipe
  let s : Streams := { writes := [.accepted, .failure e] }
  let r : Report := (m.run p .zero 10 s).get (by decide)
  have hparse : Program.parse "++[.-]" = .ok p := by rfl
  have hbelow : ∀ address < 6, ¬ p.IsStray address := by decide
  have hstray : ∀ address, ¬ p.IsStray address := fun address h =>
    hbelow address (Array.getElem?_eq_some_iff.1 h.1).1 h
  have hnew : Machine.new { tapeLength := ⟨2, by decide, by decide⟩ } = .ok m := by rfl
  have hrun : m.run p .zero 10 s = some r := (Option.some_get _).symm
  have hfault : r.fault = some (.stream 3 e) := by decide
  obtain ⟨b, hcode, -, hagree⟩ := run_eq_structured hparse hstray
  have hstructured := (hagree _ m hnew s r.verdict).1 ⟨10, r, hrun, rfl⟩
  exact ⟨p, m, s, b, r, hparse, hstray, hnew, hcode, hrun, hfault, hstructured⟩

end TapeMachine
