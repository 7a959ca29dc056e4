import TapeMachine.Proofs.Moment

/-!
# Machines in lockstep

Two machines, possibly of different programs, go in lockstep if every instruction that the first one
completes is matched by one that the second one completes with the same stream calls, and the two
machines stay related.  After any number of completed instructions the second machine has then come
as far as the first, on the same streams and with the same calls made.
-/

namespace TapeMachine

/-- Each completed instruction of the first machine is matched by one of the second. -/
def Lockstep (p p' : Program) (eof eof' : EofPolicy) (Related : Machine → Machine → Prop) : Prop :=
  ∀ ⦃m m' next : Machine⦄ ⦃s s' : Streams⦄ ⦃made : List Event⦄, Related m m' →
    m.step? p eof s = some ⟨next, s', made, none⟩ →
      ∃ next', m'.step? p' eof' s = some ⟨next', s', made, none⟩ ∧ Related next next'

theorem Lockstep.after {p p' : Program} {eof eof' : EofPolicy}
    {Related : Machine → Machine → Prop} (h : Lockstep p p' eof eof' Related) {c d : Moment}
    {m' : Machine} (hm : Related c.machine m') {n : Nat} (hd : c.after p eof n = some d) :
    ∃ next', Moment.after p' eof' n ⟨m', c.streams, c.events⟩ =
        some ⟨next', d.streams, d.events⟩ ∧ Related d.machine next' := by
  induction n generalizing c m' with
  | zero =>
      obtain rfl : c = d := Option.some.inj hd
      exact ⟨m', rfl, hm⟩
  | succ n ih =>
      obtain ⟨e, he, hd⟩ := Moment.after_succ_eq_some_iff.1 hd
      obtain ⟨made, hs, hevents⟩ := Moment.next?_eq_some_iff.1 he
      obtain ⟨next', hs', hnext⟩ := h hm hs
      obtain ⟨last', hlast, hrelated⟩ := ih hnext hd
      refine ⟨last', ?_, hrelated⟩
      apply Moment.after_succ_eq_some_iff.2
      exact ⟨⟨next', e.streams, e.events⟩, Moment.next?_eq_some_iff.2 ⟨made, hs', hevents⟩, hlast⟩

end TapeMachine
