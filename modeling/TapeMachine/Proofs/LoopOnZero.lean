import TapeMachine.Proofs.Block
import TapeMachine.Proofs.Sequence

/-!
# Loops on a zero cell

A loop that is met on a zero cell is skipped in one step, whatever is in it.  The cell is known to
be zero in two places: at the very beginning, and right behind another loop, which is left or
skipped only when the cell is zero.  A loop written in such a place can be deleted.  All that
changes is one step, and the addresses behind it.
-/

namespace TapeMachine

/-- The reports of two runs, of which the second one skipped a loop of `length` instructions that
stands at `place`, and the first one met nothing there. -/
structure Report.WithSkipped (place length : Nat) (r r' : Report) : Prop where
  events_eq : r'.events = r.events
  output_eq : r'.output = r.output
  streams_eq : r'.streams = r.streams
  tape_eq : r'.machine.tape = r.machine.tape
  steps_eq : r'.machine.steps = r.machine.steps + 1
  fault_eq : r'.fault = r.fault.map (Fault.shift length)
  place_le : ∀ fault ∈ r.fault, ∀ address ∈ fault.address?, place ≤ address

theorem Fault.shift_comm (offset offset' : Nat) (fault : Fault) :
    (fault.shift offset).shift offset' = (fault.shift offset').shift offset := by
  cases fault <;> simp only [shift, Nat.add_right_comm _ offset]

theorem Fault.le_of_mem_address?_shift {offset address : Nat} {fault : Fault}
    (h : address ∈ (fault.shift offset).address?) : offset ≤ address := by
  cases fault with
  | tapeAllocation length => contradiction
  | _ =>
      obtain rfl := Option.some.inj h
      exact Nat.le_add_left offset _

theorem Report.withSkipped_following (place length before : Nat) (made : List Event) (r : Report) :
    WithSkipped place length (r.following place before made)
      ((r.following length 1 []).following place before made) where
  events_eq := rfl
  output_eq := rfl
  streams_eq := rfl
  tape_eq := rfl
  steps_eq := Nat.add_right_comm r.machine.steps 1 before
  fault_eq := by
    simp only [following, Option.map_map]
    exact Option.map_congr fun fault _ => fault.shift_comm length place
  place_le fault hfault address haddress := by
    obtain ⟨unmoved, -, rfl⟩ := Option.map_eq_some_iff.1 hfault
    exact Fault.le_of_mem_address?_shift haddress

/-- A program that is one loop: its first instruction is a loop start, and its last instruction is
the partner of that. -/
structure Program.IsLoop (p : Program) : Prop where
  start : p.code[0]? = some .loopStart
  target : p.jumpTarget? 0 = some (p.size - 1)

theorem Program.IsLoop.size_pos {p : Program} (h : p.IsLoop) : 0 < p.size :=
  (Array.getElem?_eq_some_iff.1 h.start).1

theorem Program.exists_parse_brackets {c : String} {body : Program} (hc : parse c = .ok body)
    (hbalanced : ∀ address, ¬ body.IsStray address) :
    ∃ loop, parse ("[" ++ c ++ "]") = .ok loop ∧ loop.IsLoop ∧ loop.size = body.size + 2 := by
  obtain ⟨b, hb⟩ := Block.exists_code_eq (paired_of_parse hc) hbalanced
  have hsource : Instruction.ofSource ("[" ++ c ++ "]") = (Block.loop b .done).code := by
    rw [Instruction.ofSource_append, Instruction.ofSource_append, ← toList_code_of_parse hc, ← hb]
    rfl
  have hsize : b.size = body.size := by rw [Block.size, hb, size, Array.length_toList]
  obtain ⟨loop, hloop⟩ : ∃ loop, parse ("[" ++ c ++ "]") = .ok loop := by
    rw [exists_parse_iff, hsource]
    exact (Block.loop b .done).waiting_foldl_code {}
  have hcode : loop.code.toList = [] ++ (Block.loop b .done).code ++ [] := by
    rw [toList_code_of_parse hloop, hsource, List.nil_append, List.append_nil]
  obtain ⟨hstart, htarget, -⟩ := Block.placed_of_code (paired_of_parse hloop) _ hcode
  have hlength : loop.size = body.size + 2 := by
    have hblock : loop.size = (Block.loop b .done).size := by
      rw [size, ← Array.length_toList, hcode, List.nil_append, List.append_nil, Block.size]
    rw [hblock, Block.size_loop, Block.size_done, hsize]
  refine ⟨loop, hloop, ⟨hstart, ?_⟩, hlength⟩
  rw [List.length_nil, hsize, Nat.zero_add] at htarget
  rw [htarget, hlength, Nat.add_comm]
  rfl

/-! ## Where the cell is zero -/

/-- A program without instructions, or with a loop end as its last one. -/
def Program.EmptyOrLoopEndLast (p : Program) : Prop :=
  p.size = 0 ∨ p.code[p.size - 1]? = some .loopEnd

theorem Tape.get_of_allocate? {length : CellCount} {addressing : Addressing} {tape : Tape}
    (h : allocate? length addressing = some tape) : tape.get = 0 := by
  unfold allocate? at h
  split at h
  · obtain rfl := Option.some.inj h
    exact Array.getElem_replicate _
  · contradiction

namespace Machine

open Moment

variable {p front loop back : Program} {config : Config} {eof : EofPolicy} {m : Machine}
  {s : Streams} {a : Attempt} {tape : Tape}

/-- The end of a program whose last instruction is a loop end can only be reached by leaving that
loop or skipping it. -/
theorem Step.get_at_end (hm : Aligned p m)
    (hlast : p.code[p.size - 1]? = some .loopEnd) (h : Step p eof m s a)
    (hend : a.machine.address = p.size) : a.machine.tape.get = 0 := by
  have hlt : m.address < p.size := h.lt_size
  have hpass {i : Instruction} (hi : p.code[m.address]? = some i) (hnext : m.address + 1 = p.size) :
      i = .loopEnd := by
    rw [← hnext, Nat.add_sub_cancel, hi] at hlast
    exact Option.some.inj hlast
  cases h with
  | @action action h =>
      rcases hperform : action.perform eof m.tape s with ⟨_ | tape, _, _⟩
      · rw [hperform] at hend
        exact absurd hend hlt.ne
      · rw [hperform] at hend
        have hinstruction := hpass h hend
        cases action <;> contradiction
  | enter h => exact absurd (hpass h hend) (by simp)
  | skip h hcell => exact hcell
  | unpaired => exact absurd hend hlt.ne
  | leave h hloops hcell => exact hcell
  | @again start outer h hloops =>
      have hback : start < m.address := (hm.start_lt hloops).1
      change start + 1 = p.size at hend
      omega
  | stray => exact absurd hend hlt.ne

theorem Reachable.get_at_end (hp : p.Paired) (hlast : p.EmptyOrLoopEndLast)
    (hm : Reachable p config m) (hend : m.address = p.size) : m.tape.get = 0 := by
  cases hm with
  | new h =>
      obtain ⟨tape, htape, rfl⟩ := new_eq_ok_iff.1 h
      exact Tape.get_of_allocate? htape
  | step hm h =>
      have hstep := step_of_step? h
      rcases hlast with hempty | hlast
      · exact absurd hstep.lt_size (by omega)
      · exact hstep.get_at_end (hm.aligned hp) hlast hend

theorem emptyOrLoopEndLast_of_parse {a : String} (ha : Program.parse a = .ok front)
    (hlast : Instruction.ofSource a = [] ∨ (Instruction.ofSource a).getLast? = some .loopEnd) :
    front.EmptyOrLoopEndLast := by
  rw [← Program.toList_code_of_parse ha] at hlast
  rcases hlast with hempty | hlast
  · left
    rw [Program.size, ← Array.length_toList, hempty, List.length_nil]
  · right
    rwa [List.getLast?_eq_getElem?, Array.getElem?_toList, Array.length_toList] at hlast

/-- A completed run of a program that is empty or ends with a loop end leaves a zero cell. -/
theorem get_of_completed (hp : front.Paired) (hnew : new config = .ok m)
    (hlast : front.EmptyOrLoopEndLast) {fuel : Nat} {done : Attempt}
    (h : m.executeAll front config.eof fuel s #[] = some done)
    (hf : done.fault = none) : done.machine.tape.get = 0 := by
  obtain ⟨n, hd, hend⟩ := after_of_completed h hf
  have hreach : Reachable front config done.machine :=
    Reachable.after (c := ⟨m, s, []⟩) (.new hnew) hd
  apply hreach.get_at_end hp hlast
  exact le_antisymm (hreach.aligned hp).address_le hend

/-! ## Skipping the loop -/

theorem step?_skip (hloop : loop.IsLoop) (hcell : tape.get = 0) (s : Streams) :
    ({ tape } : Machine).step? (loop.append back) eof s =
      some { machine := ({ tape } : Machine).shift loop.size 1, streams := s } := by
  have hskip : Step (loop.append back) eof { tape } s
      { machine := ({ tape } : Machine).proceedAt (loop.size - 1 + 1), streams := s } := by
    apply Step.skip _ hcell
    · rw [Program.jumpTarget?_append_left hloop.size_pos, hloop.target]
    · rw [Program.getElem?_code_append_left hloop.size_pos, hloop.start]
  rw [hskip.step?_eq, Nat.sub_add_cancel hloop.size_pos]
  simp only [proceedAt, shift, List.map_nil, Nat.zero_add]

theorem run_skip (hloop : loop.IsLoop) (hcell : tape.get = 0) (s : Streams) (fuel : Nat) :
    ({ tape } : Machine).run (loop.append back) eof (fuel + 1) s =
      (({ tape } : Machine).run back eof fuel s).map (Report.following loop.size 1 []) := by
  have hfirst : executeAll (loop.append back) eof (fuel + 1) { tape } s #[] =
      executeAll (loop.append back) eof fuel (({ tape } : Machine).shift loop.size 1) s #[] := by
    rw [executeAll, step?_skip hloop hcell]
    rfl
  rw [run, hfirst, executeAll_append_right, run, Option.map_map, Option.map_map]
  exact Option.map_congr fun a _ => finish_shift loop.size 1 [] a

theorem callsWithin_skip (hloop : loop.IsLoop) (hcell : tape.get = 0) (s : Streams) (n : Nat) :
    ({ tape } : Machine).callsWithin (loop.append back) eof (n + 1) s =
      ({ tape } : Machine).callsWithin back eof n s := by
  rw [callsWithin, step?_skip hloop hcell]
  exact callsWithin_append_right loop back 1 n { tape } s

/-! ## Deleting the loop -/

/-- Behind a completed program that leaves a zero cell, a loop costs one step and nothing else. -/
theorem with_loop_of_completed (hp : front.Paired) (hnew : new config = .ok m)
    (hlast : front.EmptyOrLoopEndLast) (hloop : loop.IsLoop)
    {fuel : Nat} {first : Report} (h : m.run front config.eof fuel s = some first)
    (hstopped : first.stopped = none) (more : Nat) :
    m.callsWithin (front.append (loop.append back)) config.eof
        (first.machine.steps + (more + 1)) s =
      m.callsWithin (front.append back) config.eof (first.machine.steps + more) s ∧
    Option.Rel (Report.WithSkipped front.size loop.size)
      (m.run (front.append back) config.eof (first.machine.steps + more) s)
      (m.run (front.append (loop.append back)) config.eof
        (first.machine.steps + (more + 1)) s) := by
  obtain ⟨done, hdone, rfl⟩ := Option.map_eq_some_iff.1 h
  have hcell : done.machine.tape.get = 0 := get_of_completed hp hnew hlast hdone hstopped
  have hcalls (n : Nat) (rest : Program) :
      m.callsWithin (front.append rest) config.eof (done.machine.steps + n) s = done.events ++
        ({ tape := done.machine.tape } : Machine).callsWithin rest config.eof n done.streams :=
    callsWithin_append_of_completed hp hnew hdone hstopped n
  have hruns (n : Nat) (rest : Program) :
      m.run (front.append rest) config.eof (done.machine.steps + n) s =
        (({ tape := done.machine.tape } : Machine).run rest config.eof n done.streams).map
          (Report.following front.size done.machine.steps done.events) :=
    run_append_of_completed hp hnew hdone hstopped n
  change _ ∧ Option.Rel _ (m.run _ _ (done.machine.steps + more) s)
    (m.run _ _ (done.machine.steps + (more + 1)) s)
  rw [hruns more, hruns (more + 1), run_skip hloop hcell]
  constructor
  · apply (hcalls (more + 1) (loop.append back)).trans
    rw [callsWithin_skip hloop hcell]
    exact (hcalls more back).symm
  · cases ({ tape := done.machine.tape } : Machine).run back config.eof more done.streams with
    | none => exact .none
    | some r => exact .some (r.withSkipped_following front.size loop.size _ _)

theorem stops_with_loop_iff (hp : front.Paired) (hnew : new config = .ok m)
    (hlast : front.EmptyOrLoopEndLast) (hloop : loop.IsLoop) :
    (∃ fuel, (m.run (front.append (loop.append back)) config.eof fuel s).isSome) ↔
      ∃ fuel, (m.run (front.append back) config.eof fuel s).isSome := by
  by_cases hcompleted : ∃ fuel first, m.run front config.eof fuel s = some first ∧
      first.stopped = none
  · obtain ⟨fuel, first, hfirst, hstopped⟩ := hcompleted
    have hsome (more : Nat) :
        (m.run (front.append (loop.append back)) config.eof
          (first.machine.steps + 1 + more) s).isSome =
        (m.run (front.append back) config.eof (first.machine.steps + more) s).isSome := by
      rw [Nat.add_assoc, Nat.add_comm 1 more]
      apply Eq.symm
      exact isSome_eq_of_rel (with_loop_of_completed hp hnew hlast hloop hfirst hstopped more).2
    exact stops_iff_of_isSome_eq hsome
  · have hnot (fuel : Nat) (first : Report) (hfirst : m.run front config.eof fuel s = some first)
        (hstopped : first.stopped = none) : False :=
      hcompleted ⟨fuel, first, hfirst, hstopped⟩
    simp only [(append_of_not_completed hnot _ _).2]

/-- Let the first text be empty, comments aside, or end with a loop end, and let the brackets of the
second one be balanced.  Then the second text in brackets, between the first text and a third one,
can be deleted.  The program with the loop and the program without it stop together.  If a new
machine completes the first text, the loop costs one step more, it makes no calls and leaves the
tape as it is, and a fault, which can only lie behind the first text, has an address that is larger
by the two brackets and the instructions between them.  If the first text is not completed, because
it fails or because it never ends, the loop makes no difference at all. -/
theorem loop_on_zero_cell_can_be_deleted {a c d : String} {body : Program}
    (ha : Program.parse a = .ok front)
    (hlast : Instruction.ofSource a = [] ∨ (Instruction.ofSource a).getLast? = some .loopEnd)
    (hc : Program.parse c = .ok body) (hbalanced : ∀ address, ¬ body.IsStray address)
    (hd : Program.parse d = .ok back) :
    ∃ whole short, Program.parse (a ++ "[" ++ c ++ "]" ++ d) = .ok whole ∧
      Program.parse (a ++ d) = .ok short ∧
      ∀ (config : Config) (m : Machine) (s : Streams), new config = .ok m →
        ((∃ fuel, (m.run whole config.eof fuel s).isSome) ↔
          ∃ fuel, (m.run short config.eof fuel s).isSome) ∧
        (∀ fuel first, m.run front config.eof fuel s = some first → first.stopped = none →
          ∀ more,
            m.callsWithin whole config.eof (first.machine.steps + (more + 1)) s =
              m.callsWithin short config.eof (first.machine.steps + more) s ∧
            Option.Rel (Report.WithSkipped front.size (body.size + 2))
              (m.run short config.eof (first.machine.steps + more) s)
              (m.run whole config.eof (first.machine.steps + (more + 1)) s)) ∧
        ((∀ fuel first, m.run front config.eof fuel s = some first → first.stopped ≠ none) →
          ∀ fuel, m.callsWithin whole config.eof fuel s = m.callsWithin short config.eof fuel s ∧
            m.run whole config.eof fuel s = m.run short config.eof fuel s) := by
  obtain ⟨loop, hparse, hloop, hsize⟩ := Program.exists_parse_brackets hc hbalanced
  have hp : front.Paired := Program.paired_of_parse ha
  have hwhole : Program.parse (a ++ "[" ++ c ++ "]" ++ d) =
      .ok (front.append (loop.append back)) := by
    have hsource : a ++ "[" ++ c ++ "]" ++ d = a ++ ("[" ++ c ++ "]" ++ d) := by
      simp only [String.append_assoc]
    rw [hsource]
    exact Program.parse_append ha (Program.parse_append hparse hd)
  have hshort : Program.parse (a ++ d) = .ok (front.append back) := Program.parse_append ha hd
  refine ⟨front.append (loop.append back), front.append back, hwhole, hshort, ?_⟩
  intro config m s hnew
  have hend := emptyOrLoopEndLast_of_parse ha hlast
  refine ⟨stops_with_loop_iff hp hnew hend hloop, ?_, ?_⟩
  · intro fuel first hfirst hstopped more
    rw [← hsize]
    exact with_loop_of_completed hp hnew hend hloop hfirst hstopped more
  · intro hnot fuel
    obtain ⟨hcalls, hrun⟩ := append_of_not_completed hnot (loop.append back) fuel
    obtain ⟨hcalls', hrun'⟩ := append_of_not_completed hnot back fuel
    exact ⟨hcalls.trans hcalls'.symm, hrun.trans hrun'.symm⟩

/-- Behind the loop the pointer leaves the tape, seven instructions further on; and a first text
that fails at its own last instruction never gets to the loop. -/
theorem loop_on_zero_cell_can_be_deleted_edge_and_stray :
    let config : Config := { tapeLength := ⟨2, by decide, by decide⟩ }
    (∃ (whole short : Program) (m : Machine) (r r' : Report),
      Program.parse ("+[-]!" ++ "[" ++ ",[>.]" ++ "]" ++ "<") = .ok whole ∧
      Program.parse ("+[-]!" ++ "<") = .ok short ∧ new config = .ok m ∧
      m.run short .zero 5 {} = some r ∧ m.run whole .zero 6 {} = some r' ∧
      r.fault = some (.pointerOutOfRange 4 (-1)) ∧ r'.fault = some (.pointerOutOfRange 11 (-1)) ∧
      r.machine.steps = 4 ∧ r'.machine.steps = 5) ∧
    ∃ (whole : Program) (m : Machine) (r : Report),
      Program.parse ("+]" ++ "[" ++ ",[>.]" ++ "]" ++ "<") = .ok whole ∧ new config = .ok m ∧
      m.run whole .zero 2 {} = some r ∧ r.fault = some (.unmatchedLoopEnd 1) := by
  intro config
  let body : Program :=
    { code := #[.input, .loopStart, .moveRight, .output, .loopEnd]
      jumps := #[none, some 4, none, none, none]
      size_jumps := rfl }
  let back : Program := { code := #[.moveLeft], jumps := #[none], size_jumps := rfl }
  let m : Machine := { tape := ⟨#[0, 0], 0, .bounded, by decide⟩ }
  have hbody : Program.parse ",[>.]" = .ok body := by rfl
  have hback : Program.parse "<" = .ok back := by rfl
  have hnew : new config = .ok m := by rfl
  have hbelow : ∀ address < 5, ¬ body.IsStray address := by decide
  have hbalanced (address : Nat) (h : body.IsStray address) : False :=
    hbelow address (Array.getElem?_eq_some_iff.1 h.1).1 h
  constructor
  · let front : Program :=
      { code := #[.increment, .loopStart, .decrement, .loopEnd]
        jumps := #[none, some 3, none, none]
        size_jumps := rfl }
    have hfront : Program.parse "+[-]!" = .ok front := by rfl
    have hlast : (Instruction.ofSource "+[-]!").getLast? = some .loopEnd := by rfl
    obtain ⟨whole, short, hwhole, hshort, hruns⟩ :=
      loop_on_zero_cell_can_be_deleted hfront (.inr hlast) hbody hbalanced hback
    obtain rfl : front.append back = short :=
      Except.ok.inj ((Program.parse_append hfront hback).symm.trans hshort)
    let first : Report := (m.run front .zero 5 {}).get (by decide)
    let r : Report := (m.run (front.append back) .zero 5 {}).get (by decide)
    have hfirst : m.run front .zero 5 {} = some first := (Option.some_get _).symm
    have hr : m.run (front.append back) .zero 5 {} = some r := (Option.some_get _).symm
    have hskipped := ((hruns config m {} hnew).2.1 5 first hfirst (by decide) 1).2
    have hsteps : first.machine.steps = 4 := by decide
    rw [hsteps, hr] at hskipped
    generalize hr' : m.run whole config.eof (4 + (1 + 1)) {} = stopped at hskipped
    cases hskipped with
    | @some _ r' h =>
        have hfault : r.fault = some (.pointerOutOfRange 4 (-1)) := by decide
        have hmade : r.machine.steps = 4 := by decide
        refine ⟨whole, _, m, r, r', hwhole, hshort, hnew, hr, hr', hfault, ?_, hmade, ?_⟩
        · rw [h.fault_eq, hfault]
          rfl
        · rw [h.steps_eq, hmade]
  · let front : Program :=
      { code := #[.increment, .loopEnd], jumps := #[none, none], size_jumps := rfl }
    have hfront : Program.parse "+]" = .ok front := by rfl
    have hlast : (Instruction.ofSource "+]").getLast? = some .loopEnd := by rfl
    let r : Report := (m.run front .zero 2 {}).get (by decide)
    have hr : m.run front .zero 2 {} = some r := (Option.some_get _).symm
    have hnot (fuel : Nat) (first : Report) (h : m.run front .zero fuel {} = some first) :
        first.stopped ≠ none := by
      have hsame : some first = some r := by
        rw [← run_mono (Nat.le_max_left fuel 2) h, ← run_mono (Nat.le_max_right fuel 2) hr]
      obtain rfl := Option.some.inj hsame
      decide
    obtain ⟨whole, short, hwhole, hshort, hruns⟩ :=
      loop_on_zero_cell_can_be_deleted hfront (.inr hlast) hbody hbalanced hback
    obtain rfl : front.append back = short :=
      Except.ok.inj ((Program.parse_append hfront hback).symm.trans hshort)
    have hrun := ((hruns config m {} hnew).2.2 hnot 2).2
    have happend := (append_of_not_completed hnot back 2).2
    exact ⟨whole, m, r, hwhole, hnew, hrun.trans (happend.trans hr), by decide⟩

end Machine

end TapeMachine
