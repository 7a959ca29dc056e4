import TapeMachine.Proofs.Moment

/-!
# Executions that part

Two executions from the same machine can only be told apart by what their streams answer and by the
rule for the end of the input.  As long as no action tells them apart, they go through the same
moments and make the same calls; where one does, their calls part.  `Alongside` is the condition on
single actions, and `Alongside.within` what it means for executions of any length.
-/

namespace TapeMachine

/-- The calls are the same up to a place where they part: `fork` describes the calls in common and
the next call on either side. -/
def Parted (fork : List Event → Event → Event → Prop) (calls calls' : List Event) : Prop :=
  ∃ common call call' rest rest', calls = common ++ call :: rest ∧
    calls' = common ++ call' :: rest' ∧ fork common call call'

namespace Parted

variable {fork : List Event → Event → Event → Prop} {calls calls' before : List Event}

theorem append (h : Parted fork calls calls') (more more' : List Event) :
    Parted fork (calls ++ more) (calls' ++ more') := by
  obtain ⟨common, call, call', rest, rest', rfl, rfl, hfork⟩ := h
  exact ⟨common, call, call', rest ++ more, rest' ++ more', by simp, by simp, hfork⟩

theorem imp {fork' : List Event → Event → Event → Prop} (h : Parted fork calls calls')
    (hfork : ∀ {common call call'}, fork common call call' → fork' common call call') :
    Parted fork' calls calls' := by
  obtain ⟨common, call, call', rest, rest', hcalls, hcalls', hparted⟩ := h
  exact ⟨common, call, call', rest, rest', hcalls, hcalls', hfork hparted⟩

theorem behind (h : Parted (fun common => fork (before ++ common)) calls calls') :
    Parted fork (before ++ calls) (before ++ calls') := by
  obtain ⟨common, call, call', rest, rest', rfl, rfl, hfork⟩ := h
  exact ⟨before ++ common, call, call', rest, rest', by simp, by simp, hfork⟩

end Parted

namespace Machine

theorem isSome_eq_of_rel {α β : Type} {R : α → β → Prop} {x : Option α} {y : Option β}
    (h : Option.Rel R x y) : x.isSome = y.isSome := by
  cases h <;> rfl

theorem isSome_run_add {p : Program} {eof : EofPolicy} {m : Machine} {s : Streams} {fuel : Nat}
    (h : (m.run p eof fuel s).isSome) (extra : Nat) : (m.run p eof (extra + fuel) s).isSome := by
  obtain ⟨r, hr⟩ := Option.isSome_iff_exists.1 h
  rw [run_mono (Nat.le_add_left fuel extra) hr]
  rfl

/-- Runs that stop together from some fuel on, each counted from a place of its own, stop
together. -/
theorem stops_iff_of_isSome_eq {p p' : Program} {eof eof' : EofPolicy} {m m' : Machine}
    {s s' : Streams} {k k' : Nat}
    (h : ∀ more, (m.run p eof (k + more) s).isSome = (m'.run p' eof' (k' + more) s').isSome) :
    (∃ fuel, (m.run p eof fuel s).isSome) ↔ ∃ fuel, (m'.run p' eof' fuel s').isSome := by
  constructor
  · rintro ⟨fuel, hstops⟩
    exact ⟨k' + fuel, (h fuel).symm.trans (isSome_run_add hstops k)⟩
  · rintro ⟨fuel, hstops⟩
    exact ⟨k + fuel, (h fuel).trans (isSome_run_add hstops k')⟩

/-- The calls that a run makes with its first `n` instructions, the final flush included if the run
ends among them. -/
def callsWithin (p : Program) (eof : EofPolicy) : (n : Nat) → Machine → Streams → List Event
  | 0, _, _ => []
  | n + 1, m, s =>
      match m.step? p eof s with
      | none => s.flush.events
      | some ⟨m, s, made, none⟩ => made ++ callsWithin p eof n m s
      | some ⟨_, s, made, some _⟩ => made ++ s.flush.events

variable {p : Program} {eof eof' : EofPolicy} {m : Machine} {s s' : Streams} {n : Nat}

theorem exists_callsWithin_succ {a : Attempt} (h : m.step? p eof s = some a) :
    ∃ rest, callsWithin p eof (n + 1) m s = a.events ++ rest := by
  obtain ⟨m₁, s₁, made, _ | fault⟩ := a
  · exact ⟨callsWithin p eof n m₁ s₁, by simp only [callsWithin, h]⟩
  · exact ⟨s₁.flush.events, by simp only [callsWithin, h]⟩

theorem events_of_after {before : List Event} {d : Moment}
    (h : Moment.after p eof n ⟨m, s, before⟩ = some d) :
    d.events = before ++ callsWithin p eof n m s := by
  induction n generalizing m s before with
  | zero =>
      obtain rfl := Option.some.inj h
      exact (List.append_nil _).symm
  | succ n ih =>
      obtain ⟨⟨m₁, s₁, events⟩, he, hd⟩ := Moment.after_succ_eq_some_iff.1 h
      obtain ⟨made, hs, rfl⟩ := Moment.next?_eq_some_iff.1 he
      rw [ih hd, List.append_assoc]
      simp only [callsWithin, hs]

theorem callsWithin_of_after {k : Nat} {before : List Event} {d : Moment}
    (h : Moment.after p eof k ⟨m, s, before⟩ = some d) (n : Nat) :
    before ++ m.callsWithin p eof (k + n) s =
      d.events ++ d.machine.callsWithin p eof n d.streams := by
  induction k generalizing m s before with
  | zero =>
      obtain rfl := Option.some.inj h
      rw [Nat.zero_add]
  | succ k ih =>
      obtain ⟨⟨m₁, s₁, events⟩, he, hd⟩ := Moment.after_succ_eq_some_iff.1 h
      obtain ⟨made, hs, rfl⟩ := Moment.next?_eq_some_iff.1 he
      rw [← ih hd, Nat.succ_add, List.append_assoc]
      simp only [callsWithin, hs]

theorem callsWithin_prefix_of_executeAll {fuel : Nat} {before : Array Event} {a : Attempt}
    (h : executeAll p eof fuel m s before = some a) :
    before.toList ++ callsWithin p eof n m s <+: (finish a).events := by
  induction fuel generalizing m s before n with
  | zero => contradiction
  | succ fuel ih =>
      cases n with
      | zero =>
          rw [executeAll_eq_map] at h
          obtain ⟨b, -, rfl⟩ := Option.map_eq_some_iff.1 h
          simp [callsWithin, finish]
      | succ n =>
          simp only [executeAll] at h
          split at h
          · next hs =>
              obtain rfl := Option.some.inj h
              simp only [callsWithin, hs, finish]
              exact List.prefix_rfl
          · next m₁ s₁ made hs =>
              have hrest := ih (n := n) h
              simp only [callsWithin, hs]
              simpa using hrest
          · next m₁ s₁ made fault hs =>
              obtain rfl := Option.some.inj h
              simp [callsWithin, hs, finish]

/-- The calls within some instructions are the first calls of the whole run. -/
theorem callsWithin_prefix_of_run {fuel : Nat} {r : Report} (h : m.run p eof fuel s = some r)
    (n : Nat) : callsWithin p eof n m s <+: r.events := by
  obtain ⟨a, ha, rfl⟩ := Option.map_eq_some_iff.1 h
  exact callsWithin_prefix_of_executeAll ha

end Machine

/-- No action tells such streams apart without its calls parting: it has the same effect on the tape
and makes the same calls, and the streams are still alike behind it.  Which streams are alike may
depend on the calls made before. -/
structure Alongside (eof eof' : EofPolicy) (fork : List Event → Event → Event → Prop)
    (Alike : List Event → Streams → Streams → Prop) : Prop where
  flush : ∀ {before : List Event} {s s' : Streams}, Alike before s s' →
    s'.flush.result = s.flush.result ∧ s'.flush.events = s.flush.events ∧
      Alike (before ++ s.flush.events) s.flush.streams s'.flush.streams
  perform : ∀ {before : List Event} {s s' : Streams}, Alike before s s' →
    ∀ (action : Action) (tape : Tape),
      (∃ t, action.perform eof' tape s' = { action.perform eof tape s with streams := t } ∧
        Alike (before ++ (action.perform eof tape s).events)
          (action.perform eof tape s).streams t) ∨
      Parted (fun common => fork (before ++ common)) (action.perform eof tape s).events
        (action.perform eof' tape s').events

namespace Machine

theorem carryOut_withStreams (m : Machine) (effect : Effect) (t : Streams) :
    m.carryOut { effect with streams := t } = { m.carryOut effect with streams := t } := by
  obtain ⟨_ | tape, s, events⟩ := effect <;> rfl

@[simp] theorem events_carryOut (m : Machine) (effect : Effect) :
    (m.carryOut effect).events = effect.events := by
  obtain ⟨_ | tape, s, events⟩ := effect <;> rfl

@[simp] theorem streams_carryOut (m : Machine) (effect : Effect) :
    (m.carryOut effect).streams = effect.streams := by
  obtain ⟨_ | tape, s, events⟩ := effect <;> rfl

end Machine

section Together

variable (p : Program) (eof eof' : EofPolicy) (Alike : List Event → Streams → Streams → Prop)

/-- Two executions from the same machine that have not parted within `n` instructions. -/
structure Together (before : Array Event) (n : Nat) (m : Machine) (s s' : Streams) : Prop where
  calls : m.callsWithin p eof' n s' = m.callsWithin p eof n s
  moment : Option.Rel
    (fun d d' : Moment => d' = { d with streams := d'.streams } ∧
      Alike d.events d.streams d'.streams)
    (Moment.after p eof n ⟨m, s, before.toList⟩) (Moment.after p eof' n ⟨m, s', before.toList⟩)
  ending : Option.Rel
    (fun a a' : Attempt => a' = { a with streams := a'.streams } ∧
      Alike a.events a.streams a'.streams)
    (m.executeAll p eof n s before) (m.executeAll p eof' n s' before)

end Together

namespace Alongside

open Machine

variable {p : Program} {eof eof' : EofPolicy} {fork : List Event → Event → Event → Prop}
  {Alike : List Event → Streams → Streams → Prop} {m : Machine} {s s' : Streams}

theorem step (h : Alongside eof eof' fork Alike) {before : List Event} {a : Attempt}
    (hs : Alike before s s') (hstep : m.step? p eof s = some a) :
    (∃ t, m.step? p eof' s' = some { a with streams := t } ∧
      Alike (before ++ a.events) a.streams t) ∨
    ∃ a', m.step? p eof' s' = some a' ∧
      Parted (fun common => fork (before ++ common)) a.events a'.events := by
  rcases (step_of_step? hstep).action_or_silent with ⟨action, hcode, rfl⟩ | ⟨hstreams, hmade, hany⟩
  · have hstep' : m.step? p eof' s' = some (m.carryOut (action.perform eof' m.tape s')) :=
      (Step.action hcode).step?_eq
    rcases h.perform hs action m.tape with ⟨t, hperform, ht⟩ | hparted
    · left
      rw [hperform, carryOut_withStreams] at hstep'
      refine ⟨t, hstep', ?_⟩
      rwa [events_carryOut, streams_carryOut]
    · right
      refine ⟨_, hstep', ?_⟩
      rwa [events_carryOut, events_carryOut]
  · left
    refine ⟨s', (hany eof' s').step?_eq, ?_⟩
    rwa [hstreams, hmade, List.append_nil]

/-- Executions with streams that are alike go together until their calls part. -/
theorem within (h : Alongside eof eof' fork Alike) {before : Array Event}
    (hs : Alike before.toList s s') (n : Nat) :
    Together p eof eof' Alike before n m s s' ∨
      Parted (fun common => fork (before.toList ++ common)) (m.callsWithin p eof n s)
        (m.callsWithin p eof' n s') := by
  induction n generalizing m s s' before with
  | zero => exact .inl ⟨rfl, .some ⟨rfl, hs⟩, .none⟩
  | succ n ih =>
      cases hstep : m.step? p eof s with
      | none =>
          have hstep' : m.step? p eof' s' = none :=
            step?_eq_none_iff.2 (step?_eq_none_iff.1 hstep)
          left
          refine ⟨?_, ?_, ?_⟩
          · simp only [callsWithin, hstep, hstep']
            exact (h.flush hs).2.1
          · simp only [Moment.after_succ, Moment.next?, hstep, hstep', Option.bind_none]
            exact .none
          · simp only [executeAll, hstep, hstep']
            exact .some ⟨rfl, hs⟩
      | some a =>
          rcases h.step hs hstep with ⟨t, hstep', ht⟩ | ⟨a', hstep', hparted⟩
          · obtain ⟨m₁, s₁, made, _ | fault⟩ := a
            · -- the instruction is completed on both sides
              have ht' : Alike (before.appendList made).toList s₁ t := by simpa using ht
              rcases ih (m := m₁) ht' with htogether | hparted
              · left
                refine ⟨?_, ?_, ?_⟩
                · simp only [callsWithin, hstep, hstep', htogether.calls]
                · simp only [Moment.after_succ, Moment.next?, hstep, hstep', Option.bind_some]
                  simpa using htogether.moment
                · simp only [executeAll, hstep, hstep']
                  exact htogether.ending
              · right
                simp only [callsWithin, hstep, hstep']
                apply Parted.behind
                simpa [List.append_assoc] using hparted
            · -- the instruction fails on both sides
              left
              refine ⟨?_, ?_, ?_⟩
              · simp only [callsWithin, hstep, hstep', (h.flush ht).2.1]
              · simp only [Moment.after_succ, Moment.next?, hstep, hstep', Option.bind_none]
                exact .none
              · simp only [executeAll, hstep, hstep']
                exact .some ⟨rfl, by simpa using ht⟩
          · right
            obtain ⟨rest, hrest⟩ := exists_callsWithin_succ (n := n) hstep
            obtain ⟨rest', hrest'⟩ := exists_callsWithin_succ (n := n) hstep'
            rw [hrest, hrest']
            exact hparted.append rest rest'

/-- Runs that have not parted end alike, if they end. -/
theorem run (h : Alongside eof eof' fork Alike) {n : Nat}
    (htogether : Together p eof eof' Alike #[] n m s s') :
    Option.Rel
      (fun r r' : Report => r' = { r with streams := r'.streams } ∧
        Alike r.events r.streams r'.streams)
      (m.run p eof n s) (m.run p eof' n s') := by
  have hending := htogether.ending
  rw [Machine.run, Machine.run]
  generalize m.executeAll p eof n s #[] = last at hending ⊢
  generalize m.executeAll p eof' n s' #[] = last' at hending ⊢
  cases hending with
  | none => exact .none
  | @some a a' ha =>
      obtain ⟨heq, halike⟩ := ha
      obtain ⟨hresult, hevents, hflushed⟩ := h.flush halike
      refine .some ⟨?_, hflushed⟩
      rw [heq] at hresult hevents ⊢
      simp only [finish, hresult, hevents]

end Alongside

end TapeMachine
