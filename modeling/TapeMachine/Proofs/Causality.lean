import TapeMachine.Proofs.Parting
import TapeMachine.Proofs.StreamCalls

/-!
# Causality

A run knows nothing of its input but what it has read.  If two inputs agree on their first outcomes,
the runs on them are the same until a read goes beyond these.  Nor does a run depend on the rule for
the end of the input before a read has met the end.  Output and flushes may fail in any way.
-/

namespace TapeMachine

def Event.isRead : Event → Bool
  | read _ => true
  | _ => false

/-- The first `k` reads from either script have the same outcome, where a script goes on with ends
of input behind its own end. -/
def AgreeFor (k : Nat) (script script' : List ReadOutcome) : Prop :=
  ∀ i < k, script[i]?.getD .endOfInput = script'[i]?.getD .endOfInput

/-- Two runs part at the read with the number `k`, counted from zero. -/
def AtRead (k : Nat) (common : List Event) (call call' : Event) : Prop :=
  common.countP Event.isRead = k ∧ call.isRead ∧ call'.isRead

/-- Two runs part behind the first read that met the end of the input. -/
def AtEnd (common : List Event) (call call' : Event) : Prop :=
  .read .endOfInput ∉ common ∧ call = .read .endOfInput ∧ call' = .read .endOfInput

theorem agreeFor_succ {k : Nat} {script script' : List ReadOutcome} :
    AgreeFor (k + 1) script script' ↔
      script.headD .endOfInput = script'.headD .endOfInput ∧
        AgreeFor k script.tail script'.tail := by
  simp only [AgreeFor, Nat.forall_lt_succ_left', List.getElem?_tail, List.headD_eq_head?_getD,
    List.head?_eq_getElem?]

namespace Streams

/-- A user who reads makes one call, and again one if it was interrupted. -/
theorem readFrom_eq (script : List ReadOutcome) :
    readFrom script =
      match script.headD .endOfInput with
      | .byte value => (.ok (some value), script.tail, [.read (.byte value)])
      | .endOfInput => (.ok none, script.tail, [.read .endOfInput])
      | .failure e =>
          if e.isInterruption then
            ((readFrom script.tail).1, (readFrom script.tail).2.1,
              .read (.failure e) :: (readFrom script.tail).2.2)
          else (.error e, script.tail, [.read (.failure e)]) := by
  cases script with
  | nil => rfl
  | cons outcome rest => cases outcome <;> rfl

theorem exists_calls_readFrom (script : List ReadOutcome) :
    ∃ outcome rest, (readFrom script).2.2 = .read outcome :: rest := by
  rw [readFrom_eq]
  cases script.headD .endOfInput with
  | byte value => exact ⟨_, _, rfl⟩
  | endOfInput => exact ⟨_, _, rfl⟩
  | failure e =>
      dsimp only
      split
      · exact ⟨_, _, rfl⟩
      · exact ⟨_, _, rfl⟩

/-- Reading from scripts that agree for a while: either it has the same result, after so few calls
that the rests of the scripts agree for what is left of the while, or it goes beyond it. -/
theorem readFrom_agreeFor {k : Nat} {script script' : List ReadOutcome}
    (h : AgreeFor k script script') :
    (∃ j rest', (readFrom script).2.2.countP Event.isRead + j = k ∧
      readFrom script' = ((readFrom script).1, rest', (readFrom script).2.2) ∧
      AgreeFor j (readFrom script).2.1 rest') ∨
    Parted (AtRead k) (readFrom script).2.2 (readFrom script').2.2 := by
  induction k generalizing script script' with
  | zero =>
      right
      obtain ⟨outcome, rest, hcalls⟩ := exists_calls_readFrom script
      obtain ⟨outcome', rest', hcalls'⟩ := exists_calls_readFrom script'
      exact ⟨[], _, _, rest, rest', hcalls, hcalls', rfl, rfl, rfl⟩
  | succ k ih =>
      obtain ⟨hhead, htail⟩ := agreeFor_succ.1 h
      rw [readFrom_eq script, readFrom_eq script', ← hhead]
      cases script.headD .endOfInput with
      | byte value => exact .inl ⟨k, script'.tail, Nat.add_comm 1 k, rfl, htail⟩
      | endOfInput => exact .inl ⟨k, script'.tail, Nat.add_comm 1 k, rfl, htail⟩
      | failure e =>
          dsimp only
          split
          · rcases ih htail with ⟨j, rest', hcount, hread, hrest⟩ | hparted
            · left
              refine ⟨j, rest', ?_, ?_, hrest⟩
              · rw [List.countP_cons_of_pos rfl]
                omega
              · rw [hread]
            · right
              -- the interrupted call is one of the first `k + 1` reads
              have hrest : Parted (fun common => AtRead (k + 1) ([.read (.failure e)] ++ common))
                  (readFrom script.tail).2.2 (readFrom script'.tail).2.2 := by
                apply hparted.imp
                rintro common call call' ⟨hcount, hread⟩
                exact ⟨by rw [List.singleton_append, List.countP_cons_of_pos rfl, hcount], hread⟩
              exact hrest.behind
          · exact .inl ⟨k, script'.tail, Nat.add_comm 1 k, rfl, htail⟩

theorem flush_withReads (s : Streams) (reads : List ReadOutcome) :
    ({ s with reads } : Streams).flush =
      { s.flush with streams := { s.flush.streams with reads } } := by
  obtain ⟨_, _, _ | ⟨_ | e, flushes⟩⟩ := s <;> rfl

theorem reads_flush (s : Streams) : s.flush.streams.reads = s.reads := by
  obtain ⟨_, _, _ | ⟨_ | e, flushes⟩⟩ := s <;> rfl

theorem not_isRead_of_mem_flush {s : Streams} {call : Event} (h : call ∈ s.flush.events) :
    ¬ call.isRead := by
  obtain ⟨outcome, hflush⟩ := exists_flush_eq s
  rw [hflush, List.mem_singleton] at h
  rw [h]
  exact Bool.false_ne_true

end Streams

theorem OutputCalls.not_isRead_of_mem {value : UInt8} {calls : List Event}
    {result : Except StreamError Unit} (h : OutputCalls value calls result) {call : Event}
    (hcall : call ∈ calls) : ¬ call.isRead := by
  induction h with
  | again hi h ih =>
      rcases List.mem_cons.1 hcall with rfl | hcall
      · exact Bool.false_ne_true
      · exact ih hcall
  | accepted | refused | failed =>
      rw [List.mem_singleton.1 hcall]
      exact Bool.false_ne_true

/-- Among the calls of a read the end of the input is met by the last one or not at all. -/
theorem ReadCalls.endOfInput_cases {calls : List Event}
    {result : Except StreamError (Option UInt8)} (h : ReadCalls calls result) :
    (result = .ok none ∧ ∃ front, calls = front ++ [.read .endOfInput] ∧
      .read .endOfInput ∉ front) ∨
    result ≠ .ok none ∧ .read .endOfInput ∉ calls := by
  induction h with
  | @again e calls result hi h ih =>
      rcases ih with ⟨hresult, front, rfl, hfront⟩ | ⟨hresult, hcalls⟩
      · exact .inl ⟨hresult, .read (.failure e) :: front, rfl, by simpa using hfront⟩
      · exact .inr ⟨hresult, by simpa using hcalls⟩
  | byte value => exact .inr ⟨by simp, by simp⟩
  | endOfInput => exact .inl ⟨rfl, [], rfl, List.not_mem_nil⟩
  | failed hi => exact .inr ⟨by simp, by simp⟩

namespace Action

theorem perform_eof {action : Action} (h : action ≠ .input) (eof eof' : EofPolicy) (tape : Tape)
    (s : Streams) : action.perform eof' tape s = action.perform eof tape s := by
  cases action with
  | input => contradiction
  | output | moveRight | moveLeft | increment | decrement => rfl

/-- An action other than an input reads nothing and does not depend on what there is to read. -/
theorem perform_withReads {action : Action} (h : action ≠ .input) (eof : EofPolicy) (tape : Tape)
    (s : Streams) (reads : List ReadOutcome) :
    action.perform eof tape { s with reads } =
        { action.perform eof tape s with
          streams := { (action.perform eof tape s).streams with reads } } ∧
      (action.perform eof tape s).streams.reads = s.reads ∧
      ∀ call ∈ (action.perform eof tape s).events, ¬ call.isRead := by
  cases action with
  | input => contradiction
  | output =>
      have hcalls : OutputCalls tape.get (s.write tape.get).events (s.write tape.get).result :=
        Streams.outputCalls_writeTo tape.get s.writes
      have hwrite : ({ s with reads } : Streams).write tape.get =
          { s.write tape.get with streams := { (s.write tape.get).streams with reads } } := rfl
      have hreads : (s.write tape.get).streams.reads = s.reads := rfl
      simp only [perform, hwrite]
      rcases hs : s.write tape.get with ⟨_ | _, s₁, events⟩ <;> rw [hs] at hcalls hreads
      · exact ⟨rfl, hreads, fun call => hcalls.not_isRead_of_mem⟩
      · exact ⟨rfl, hreads, fun call => hcalls.not_isRead_of_mem⟩
  | moveRight | moveLeft | increment | decrement => exact ⟨rfl, rfl, by simp [perform]⟩

theorem perform_input_of_unflushed {s s₁ : Streams} {e : StreamError} {flushed : List Event}
    (h : s.flush = ⟨.error e, s₁, flushed⟩) (eof : EofPolicy) (tape : Tape) :
    perform eof tape s .input = ⟨.error (.stream e), s₁, flushed⟩ := by
  simp only [perform, h]

theorem perform_input_of_flushed {s s₁ : Streams} {flushed : List Event}
    (h : s.flush = ⟨.ok (), s₁, flushed⟩) (eof : EofPolicy) (tape : Tape) :
    perform eof tape s .input =
      { result := (s₁.read.result.mapError .stream).map fun read => Machine.store eof read tape
        streams := s₁.read.streams
        events := flushed ++ s₁.read.events } := by
  simp only [perform, h]
  rcases s₁.read with ⟨_ | _, _, _⟩ <;> rfl

end Action

/-- The streams differ in what is left to read, but not for the first `k` reads of the run. -/
def AlikeFor (k : Nat) (before : List Event) (s s' : Streams) : Prop :=
  ∃ j reads, before.countP Event.isRead + j = k ∧ s' = { s with reads } ∧ AgreeFor j s.reads reads

namespace AlikeFor

variable {k : Nat} {before : List Event} {s s' : Streams}

theorem countP_of_forall {calls : List Event} (h : ∀ call ∈ calls, ¬ call.isRead) :
    (before ++ calls).countP Event.isRead = before.countP Event.isRead := by
  rw [List.countP_append, List.countP_eq_zero.2 h, Nat.add_zero]

theorem flush (h : AlikeFor k before s s') :
    ∃ t, s'.flush = { s.flush with streams := t } ∧
      AlikeFor k (before ++ s.flush.events) s.flush.streams t := by
  obtain ⟨j, reads, hcount, rfl, hagree⟩ := h
  refine ⟨_, Streams.flush_withReads s reads, j, reads, ?_, rfl, ?_⟩
  · rw [countP_of_forall fun call => Streams.not_isRead_of_mem_flush, hcount]
  · rwa [Streams.reads_flush]

theorem read (h : AlikeFor k before s s') :
    (∃ t, s'.read = { s.read with streams := t } ∧
      AlikeFor k (before ++ s.read.events) s.read.streams t) ∨
    Parted (fun common => AtRead k (before ++ common)) s.read.events s'.read.events := by
  obtain ⟨j, reads, hcount, rfl, hagree⟩ := h
  rcases Streams.readFrom_agreeFor hagree with ⟨i, rest, hcalls, hread, hrest⟩ | hparted
  · left
    refine ⟨{ s with reads := rest }, ?_, i, rest, ?_, rfl, hrest⟩
    · simp only [Streams.read, hread]
    · have hevents : s.read.events = (Streams.readFrom s.reads).2.2 := rfl
      rw [List.countP_append, hevents, Nat.add_assoc, hcalls, hcount]
  · right
    apply hparted.imp
    rintro common call call' ⟨hreads, hfork⟩
    exact ⟨by rw [List.countP_append, hreads, hcount], hfork⟩

end AlikeFor

/-- Runs on inputs that agree on their first `k` outcomes part at the read with the number `k`. -/
theorem alongside_alikeFor (eof : EofPolicy) (k : Nat) :
    Alongside eof eof (AtRead k) (AlikeFor k) where
  flush h := by
    obtain ⟨t, ht, hafter⟩ := h.flush
    rw [ht]
    exact ⟨rfl, rfl, hafter⟩
  perform {before s s'} h action tape := by
    by_cases haction : action = .input
    · obtain ⟨t, ht, hafter⟩ := h.flush
      rw [haction]
      rcases hflush : s.flush with ⟨e | _, s₁, flushed⟩ <;> rw [hflush] at ht hafter
      · -- both flushes fail, and nothing is read
        left
        rw [Action.perform_input_of_unflushed hflush, Action.perform_input_of_unflushed ht]
        exact ⟨t, rfl, hafter⟩
      · rw [Action.perform_input_of_flushed hflush, Action.perform_input_of_flushed ht]
        rcases hafter.read with ⟨t', hread, hrest⟩ | hparted
        · left
          rw [hread]
          exact ⟨t', rfl, by rwa [List.append_assoc] at hrest⟩
        · right
          exact Parted.behind (by simpa only [List.append_assoc] using hparted)
    · left
      obtain ⟨j, reads, hcount, rfl, hagree⟩ := h
      obtain ⟨hperform, hreads, hcalls⟩ :=
        Action.perform_withReads haction eof tape s reads
      refine ⟨_, hperform, j, reads, ?_, rfl, ?_⟩
      · rw [AlikeFor.countP_of_forall hcalls, hcount]
      · rwa [hreads]

theorem endOfInput_not_mem {calls : List Event} (h : ∀ call ∈ calls, ¬ call.isRead) :
    .read .endOfInput ∉ calls :=
  fun hmem => h _ hmem rfl

/-- The streams are the same, and the end of the input was not met yet. -/
def BeforeEnd (before : List Event) (s s' : Streams) : Prop :=
  s' = s ∧ .read .endOfInput ∉ before

/-- Runs with different rules for the end of the input part behind the first read that meets it. -/
theorem alongside_beforeEnd (eof eof' : EofPolicy) :
    Alongside eof eof' AtEnd BeforeEnd where
  flush {before s s'} h := by
    obtain ⟨rfl, hbefore⟩ := h
    have hflushed := endOfInput_not_mem fun call => Streams.not_isRead_of_mem_flush (s := s')
    exact ⟨rfl, rfl, rfl, by simp [hbefore, hflushed]⟩
  perform {before s s'} h action tape := by
    obtain ⟨rfl, hbefore⟩ := h
    by_cases haction : action = .input
    · have hflushed := endOfInput_not_mem fun call => Streams.not_isRead_of_mem_flush (s := s')
      rw [haction]
      rcases hflush : s'.flush with ⟨e | _, s₁, flushed⟩ <;> rw [hflush] at hflushed
      · left
        rw [Action.perform_input_of_unflushed hflush, Action.perform_input_of_unflushed hflush]
        exact ⟨s₁, rfl, rfl, by simp [hbefore, hflushed]⟩
      · rw [Action.perform_input_of_flushed hflush, Action.perform_input_of_flushed hflush]
        have hcalls : ReadCalls s₁.read.events s₁.read.result := Streams.readCalls_readFrom s₁.reads
        rcases hcalls.endOfInput_cases with ⟨-, front, hfront, hnone⟩ | ⟨hresult, hnone⟩
        · -- the calls are the same, but what is stored behind them may not be
          right
          refine ⟨flushed ++ front, .read .endOfInput, .read .endOfInput, [], [], ?_, ?_, ?_⟩
          · rw [hfront, List.append_assoc]
          · rw [hfront, List.append_assoc]
          · exact ⟨by simp [hbefore, hflushed, hnone], rfl, rfl⟩
        · left
          refine ⟨s₁.read.streams, ?_, rfl, by simp [hbefore, hflushed, hnone]⟩
          generalize s₁.read = transfer at hresult ⊢
          rcases transfer with ⟨e | read, s₂, calls⟩
          · rfl
          · obtain ⟨value, rfl⟩ := Option.ne_none_iff_exists'.1 fun hread => hresult (hread ▸ rfl)
            rfl
    · left
      rw [Action.perform_eof haction eof eof']
      have hsame := Action.perform_withReads haction eof tape s' s'.reads
      exact ⟨_, rfl, rfl, by simp [hbefore, endOfInput_not_mem hsame.2.2]⟩

theorem Parted.lt_countP {k : Nat} {calls calls' : List Event}
    (h : Parted (AtRead k) calls calls') :
    k < calls.countP Event.isRead ∧ k < calls'.countP Event.isRead := by
  obtain ⟨common, call, call', rest, rest', rfl, rfl, hcount, hcall, hcall'⟩ := h
  rw [List.countP_append, List.countP_append, List.countP_cons_of_pos hcall,
    List.countP_cons_of_pos hcall']
  omega

theorem Parted.endOfInput_mem {calls calls' : List Event} (h : Parted AtEnd calls calls') :
    .read .endOfInput ∈ calls ∧ .read .endOfInput ∈ calls' := by
  obtain ⟨common, call, call', rest, rest', rfl, rfl, -, rfl, rfl⟩ := h
  exact ⟨by simp, by simp⟩

/-- A moment, but for what is left to read. -/
def Moment.withoutReads (c : Moment) : Moment :=
  { c with streams := { c.streams with reads := [] } }

/-- A report, but for what is left to read. -/
def Report.withoutReads (r : Report) : Report :=
  { r with streams := { r.streams with reads := [] } }

theorem map_eq_of_rel {α β : Type} {R : α → α → Prop} {x x' : Option α} (f : α → β)
    (h : Option.Rel R x x') (hf : ∀ a a', R a a' → f a' = f a) : x'.map f = x.map f := by
  cases h with
  | none => rfl
  | some hR => exact congrArg some (hf _ _ hR)

section Runs

variable {p : Program} {eof eof' : EofPolicy} {m : Machine} {s s' : Streams} {k : Nat}

theorem Together.sameButReads {n : Nat} (h : Together p eof eof (AlikeFor k) #[] n m s s') :
    (Moment.after p eof n ⟨m, s', []⟩).map Moment.withoutReads =
        (Moment.after p eof n ⟨m, s, []⟩).map Moment.withoutReads ∧
      (m.run p eof n s').map Report.withoutReads = (m.run p eof n s).map Report.withoutReads := by
  constructor
  · refine map_eq_of_rel _ h.moment fun d d' hd => ?_
    obtain ⟨hd', j, reads, -, hstreams, -⟩ := hd
    rw [hd', hstreams]
    rfl
  · refine map_eq_of_rel _ ((alongside_alikeFor eof k).run h) fun r r' hr => ?_
    obtain ⟨hr', j, reads, -, hstreams, -⟩ := hr
    rw [hr', hstreams]
    rfl

theorem Together.same {n : Nat} (h : Together p eof eof' BeforeEnd #[] n m s s) :
    Moment.after p eof' n ⟨m, s, []⟩ = Moment.after p eof n ⟨m, s, []⟩ ∧
      m.run p eof' n s = m.run p eof n s := by
  constructor
  · refine Option.map_injective Function.injective_id (map_eq_of_rel id h.moment fun d d' hd => ?_)
    obtain ⟨hd', hstreams, -⟩ := hd
    rw [hd', hstreams]
  · refine Option.map_injective Function.injective_id
      (map_eq_of_rel id ((alongside_beforeEnd eof eof').run h) fun r r' hr => ?_)
    obtain ⟨hr', hstreams, -⟩ := hr
    rw [hr', hstreams]

variable (p eof eof' m s)

theorem together_or_parted_at_read (h : AlikeFor k [] s s') (n : Nat) :
    Together p eof eof (AlikeFor k) #[] n m s s' ∨
      Parted (AtRead k) (m.callsWithin p eof n s) (m.callsWithin p eof n s') := by
  have hstart : AlikeFor k (#[] : Array Event).toList s s' := h
  simpa only [List.nil_append] using (alongside_alikeFor eof k).within (p := p) (m := m) hstart n

theorem together_or_parted_at_end (n : Nat) :
    Together p eof eof' BeforeEnd #[] n m s s ∨
      Parted AtEnd (m.callsWithin p eof n s) (m.callsWithin p eof' n s) := by
  have hstart : BeforeEnd (#[] : Array Event).toList s s := ⟨rfl, List.not_mem_nil⟩
  simpa only [List.nil_append] using
    (alongside_beforeEnd eof eof').within (p := p) (m := m) hstart n

variable {p eof eof' m s}

/-- The calls that two runs have in common are those of their first reads; so they have not parted
if one of them makes few reads. -/
theorem together_of_few_reads (h : AlikeFor k [] s s') {n : Nat}
    (hfew : (m.callsWithin p eof n s).countP Event.isRead ≤ k ∨
      (m.callsWithin p eof n s').countP Event.isRead ≤ k) :
    Together p eof eof (AlikeFor k) #[] n m s s' := by
  apply (together_or_parted_at_read p eof m s h n).resolve_right
  intro hparted
  obtain ⟨hmany, hmany'⟩ := hparted.lt_countP
  omega

theorem together_of_no_end {n : Nat}
    (hno : .read .endOfInput ∉ m.callsWithin p eof n s ∨
      .read .endOfInput ∉ m.callsWithin p eof' n s) :
    Together p eof eof' BeforeEnd #[] n m s s := by
  apply (together_or_parted_at_end p eof eof' m s n).resolve_right
  intro hparted
  obtain ⟨hend, hend'⟩ := hparted.endOfInput_mem
  exact hno.elim (absurd hend) (absurd hend')

end Runs

/-- Suppose that two inputs agree on their first `k` outcomes.  Then the runs on them make the same
calls up to the read with the number `k`, and go through the same moments as long as no more than
`k` reads were made; if one of them makes no more than these at all, they go through the same
moments throughout and end with the same report.  With different rules for the end of the input, the
runs on one input make the same calls up to the first read that meets the end, and go through the
same moments before it; if neither meets the end, they are the same throughout. -/
theorem Machine.run_is_causal (p : Program) (eof eof' : EofPolicy) (m : Machine) {k : Nat}
    {reads reads' : List ReadOutcome} (h : AgreeFor k reads reads') (writes : List WriteOutcome)
    (flushes : List FlushOutcome) :
    let s : Streams := { reads, writes, flushes }
    let s' : Streams := { reads := reads', writes, flushes }
    (∀ n,
      m.callsWithin p eof n s' = m.callsWithin p eof n s ∨
        Parted (AtRead k) (m.callsWithin p eof n s) (m.callsWithin p eof n s')) ∧
    (∀ n d, Moment.after p eof n ⟨m, s, []⟩ = some d → d.events.countP Event.isRead ≤ k →
      (Moment.after p eof n ⟨m, s', []⟩).map Moment.withoutReads = some d.withoutReads) ∧
    ((∀ n, (m.callsWithin p eof n s).countP Event.isRead ≤ k) ∨
        (∀ n, (m.callsWithin p eof n s').countP Event.isRead ≤ k) →
      ∀ n, (Moment.after p eof n ⟨m, s', []⟩).map Moment.withoutReads =
          (Moment.after p eof n ⟨m, s, []⟩).map Moment.withoutReads ∧
        (m.run p eof n s').map Report.withoutReads =
          (m.run p eof n s).map Report.withoutReads) ∧
    (∀ n,
      m.callsWithin p eof' n s = m.callsWithin p eof n s ∨
        Parted AtEnd (m.callsWithin p eof n s) (m.callsWithin p eof' n s)) ∧
    (∀ n d, Moment.after p eof n ⟨m, s, []⟩ = some d → .read .endOfInput ∉ d.events →
      Moment.after p eof' n ⟨m, s, []⟩ = some d) ∧
    ((∀ n, .read .endOfInput ∉ m.callsWithin p eof n s) ∨
        (∀ n, .read .endOfInput ∉ m.callsWithin p eof' n s) →
      ∀ n, Moment.after p eof' n ⟨m, s, []⟩ = Moment.after p eof n ⟨m, s, []⟩ ∧
        m.run p eof' n s = m.run p eof n s) := by
  intro s s'
  have hstart : AlikeFor k [] s s' := ⟨k, reads', Nat.zero_add k, rfl, h⟩
  refine ⟨fun n => ?_, fun n d hd hfew => ?_, fun hfew n => ?_, fun n => ?_, fun n d hd hno => ?_,
    fun hno n => ?_⟩
  · exact (together_or_parted_at_read p eof m s hstart n).imp_left Together.calls
  · rw [events_of_after hd, List.nil_append] at hfew
    rw [(together_of_few_reads hstart (.inl hfew)).sameButReads.1, hd, Option.map_some]
  · exact (together_of_few_reads hstart (hfew.imp (· n) (· n))).sameButReads
  · exact (together_or_parted_at_end p eof eof' m s n).imp_left Together.calls
  · rw [events_of_after hd, List.nil_append] at hno
    exact (together_of_no_end (.inl hno)).same.1.trans hd
  · exact (together_of_no_end (hno.imp (· n) (· n))).same

/-- The loop reads three outcomes, an interruption among them, and the inputs differ in the
fourth. -/
theorem Machine.run_is_causal_unread_failure :
    let interrupted : ReadOutcome := .failure (.ofKind .interrupted)
    let reads : List ReadOutcome := [.byte 7, interrupted, .byte 0, .byte 1]
    let reads' : List ReadOutcome := [.byte 7, interrupted, .byte 0, .failure (.ofKind .brokenPipe)]
    ∃ (p : Program) (m : Machine) (r : Report), Program.parse ",[.,]" = .ok p ∧
      Machine.new { tapeLength := ⟨2, by decide, by decide⟩ } = .ok m ∧
      m.run p .zero 9 { reads } = some r ∧ r.output = [7] ∧
      (m.run p .zero 9 { reads := reads' }).map Report.withoutReads = some r.withoutReads ∧
      m.run p .max 9 { reads } = some r := by
  intro interrupted reads reads'
  let p : Program :=
    { code := #[.input, .loopStart, .output, .input, .loopEnd]
      jumps := #[none, some 4, none, none, none], size_jumps := rfl }
  let m : Machine := { tape := ⟨#[0, 0], 0, .bounded, by decide⟩ }
  have hparse : Program.parse ",[.,]" = .ok p := by rfl
  have hnew : Machine.new { tapeLength := ⟨2, by decide, by decide⟩ } = .ok m := by rfl
  let r : Report := (m.run p .zero 9 { reads }).get (by decide)
  have hrun : m.run p .zero 9 { reads } = some r := (Option.some_get _).symm
  have hagree : AgreeFor 3 reads reads' := by unfold AgreeFor; decide
  have hfew (n : Nat) : (m.callsWithin p .zero n { reads }).countP Event.isRead ≤ 3 :=
    (callsWithin_prefix_of_run hrun n).sublist.countP_le
  have hno (n : Nat) : .read .endOfInput ∉ m.callsWithin p .zero n { reads } := fun hmem =>
    absurd ((callsWithin_prefix_of_run hrun n).subset hmem) (by decide)
  obtain ⟨-, -, hsame, -, -, hpolicy⟩ := run_is_causal p .zero .max m hagree [] []
  refine ⟨p, m, r, hparse, hnew, hrun, by decide, ?_, ?_⟩
  · rw [(hsame (.inl hfew) 9).2, hrun, Option.map_some]
  · rw [(hpolicy (.inl hno) 9).2, hrun]

end TapeMachine
