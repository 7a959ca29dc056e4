import TapeMachine.Proofs.Circle
import TapeMachine.Proofs.Comments
import TapeMachine.Proofs.Sequence

/-!
# Moves in front of a program

Moves in front of a program only choose the cell in which it begins.  On a circular tape they are
never refused, and since a new tape looks the same from everywhere, the program runs there as it
does from the first cell: everything lies that many cells further round, and addresses and steps are
counted from further back.
-/

namespace TapeMachine

/-- The character of the move by one cell in this sense. -/
def Sense.mark : Sense → Char
  | same => '>'
  | opposite => '<'

theorem Sense.mark_eq (sense : Sense) : sense.mark = sense.move.toInstruction.toChar := by
  cases sense <;> rfl

/-- The text of `k` moves by one cell, all in one sense. -/
def Source.moves (sense : Sense) (k : Nat) : String :=
  String.ofList (List.replicate k sense.mark)

theorem Instruction.ofSource_moves (sense : Sense) (k : Nat) :
    ofSource (Source.moves sense k) = List.replicate k sense.move.toInstruction := by
  rw [Source.moves, Sense.mark_eq, ← List.map_replicate, ofSource_ofList_map_toChar]

namespace LoopScan

theorem ofCode_replicate (k : Nat) (action : Action) :
    ofCode (List.replicate k action.toInstruction) = ⟨[], Array.replicate k none⟩ := by
  induction k with
  | zero => rfl
  | succ k ih =>
      rw [List.replicate_succ', ofCode_concat, ih, push_toInstruction, Array.replicate_succ]

end LoopScan

namespace Program

/-- The program of `k` moves by one cell, all in one sense. -/
def moves (sense : Sense) (k : Nat) : Program where
  code := Array.replicate k sense.move.toInstruction
  jumps := Array.replicate k none
  size_jumps := by rw [Array.size_replicate, Array.size_replicate]

variable (sense : Sense) (k : Nat)

@[simp] theorem size_moves : (moves sense k).size = k :=
  Array.size_replicate

theorem parse_moves : parse (Source.moves sense k) = .ok (moves sense k) := by
  rw [parse, Instruction.ofSource_moves]
  refine ofCode_eq_ok_iff.2 ⟨Array.toList_replicate, ?_, ?_⟩ <;> rw [LoopScan.ofCode_replicate]
  rfl

end Program

namespace Machine

open Moment

variable {p front back : Program} {config : Config} {eof : EofPolicy} {m : Machine} {s : Streams}

variable {sense : Sense} {k : Nat} {tape : Tape}

theorem step?_moves (h : tape.addressing = .circular) {n : Nat} (hn : n < k) (s : Streams) :
    (⟨tape, [], n, n⟩ : Machine).step? (Program.moves sense k) eof s =
      some { machine := ⟨tape.roll sense.sign, [], n + 1, n + 1⟩, streams := s } := by
  have hcode : (Program.moves sense k).code[n]? = some sense.move.toInstruction := by
    rw [Program.moves, Array.getElem?_replicate, if_pos hn]
  rw [(Step.action hcode).step?_eq, Action.perform_move sense eof h]
  rfl

theorem after_moves (h : tape.addressing = .circular) (s : Streams) {n : Nat} (hn : n ≤ k) :
    Moment.after (Program.moves sense k) eof n ⟨{ tape }, s, []⟩ =
      some ⟨⟨tape.roll (sense.sign * n), [], n, n⟩, s, []⟩ := by
  induction n with
  | zero =>
      rw [Nat.cast_zero, mul_zero, Tape.roll_zero]
      rfl
  | succ n ih =>
      have hroll : (tape.roll (sense.sign * n)).roll sense.sign =
          tape.roll (sense.sign * (n + 1 : Nat)) := by
        rw [Tape.roll_roll, Nat.cast_add, Nat.cast_one, mul_add, mul_one]
      have haddressing : (tape.roll (sense.sign * n)).addressing = .circular := h
      refine after_trans (ih (Nat.le_of_succ_le hn)) (after_one ?_)
      rw [← hroll]
      exact next?_eq_some_iff.2 ⟨[], step?_moves haddressing hn s, rfl⟩

/-- Moves in front of a program take the pointer round the circle, and then the program runs. -/
theorem run_behind_moves (hcircular : config.addressing = .circular)
    (hnew : new config = .ok { tape }) (s : Streams) (fuel : Nat) :
    ({ tape } : Machine).run ((Program.moves sense k).append back) config.eof (k + fuel) s =
      (({ tape := tape.roll (sense.sign * k) } : Machine).run back config.eof fuel s).map
        (Report.following k k []) := by
  have hp : (Program.moves sense k).Paired := Program.paired_of_parse (Program.parse_moves sense k)
  have htape : tape.addressing = .circular :=
    (Reachable.new (p := back) hnew).madeFor.addressing_eq.trans hcircular
  let d : Moment := ⟨⟨tape.roll (sense.sign * k), [], k, k⟩, s, []⟩
  have hd : Moment.after (Program.moves sense k) config.eof k ⟨{ tape }, s, []⟩ = some d :=
    after_moves htape s le_rfl
  have hend : d.machine.step? (Program.moves sense k) config.eof s = none :=
    step?_eq_none_iff.2 (Program.size_moves sense k).le
  have hdone : executeAll (Program.moves sense k) config.eof (k + 1) { tape } s #[] =
      some { machine := d.machine, streams := s } :=
    executeAll_eq_some_iff.2
      ⟨k, Nat.lt_succ_self k, d, hd, ending?_eq_some_iff.2 (.inl ⟨hend, rfl⟩)⟩
  have hrun : ({ tape } : Machine).run ((Program.moves sense k).append back) config.eof
        (k + fuel) s = _ := run_append_of_completed hp hnew hdone rfl fuel
  rwa [Program.size_moves] at hrun

theorem callsWithin_behind_moves (h : tape.addressing = .circular) (s : Streams) (n : Nat) :
    ({ tape } : Machine).callsWithin ((Program.moves sense k).append back) eof (k + n) s =
      ({ tape := tape.roll (sense.sign * k) } : Machine).callsWithin back eof n s := by
  let rolled : Machine := { tape := tape.roll (sense.sign * k) }
  have hd : Moment.after ((Program.moves sense k).append back) eof k ⟨{ tape }, s, []⟩ =
      some ⟨rolled.shift k k, s, []⟩ := by
    rw [after_append (after_moves h s le_rfl)]
    simp [shift, rolled]
  calc ({ tape } : Machine).callsWithin ((Program.moves sense k).append back) eof (k + n) s
      = (rolled.shift k k).callsWithin ((Program.moves sense k).append back) eof n s :=
        callsWithin_of_after hd n
    _ = rolled.callsWithin back eof n s := by
        have hcalls : _ = rolled.callsWithin back eof n s :=
          callsWithin_append_right (Program.moves sense k) back k n rolled s
        rwa [Program.size_moves] at hcalls

theorem run_rotated (hcircular : config.addressing = .circular) (hnew : new config = .ok m)
    (sense : Sense) (k fuel : Nat) (s : Streams) :
    Option.Rel
      (fun r r' => r'.fault = r.fault.map (Fault.shift k) ∧
        r'.machine.steps = r.machine.steps + k ∧
        r.Renumbered config.tapeLength.val
          (fun i => onCircle config.tapeLength.val (i + sense.sign * k)) r')
      (m.run p config.eof fuel s)
      (m.run ((Program.moves sense k).append p) config.eof (k + fuel) s) := by
  have hplace (i : Nat) : Sense.same.place config.tapeLength.val (sense.sign * k) i =
      onCircle config.tapeLength.val (i + sense.sign * k) := by
    rw [Sense.place, Sense.sign, one_mul]
  have hrun := run_turned hcircular hnew (fun i _ => hplace i) p fuel s
  rw [Sense.turn_same, Program.mapAction_id] at hrun
  obtain ⟨tape, -, rfl⟩ := new_eq_ok_iff.1 hnew
  rw [run_behind_moves hcircular hnew]
  generalize Machine.run p config.eof fuel _ s = stopped at hrun ⊢
  generalize Machine.run p config.eof fuel _ s = stopped' at hrun ⊢
  cases hrun with
  | none => exact .none
  | @some r r' h =>
      obtain ⟨hfault, hsteps, hrenumbered⟩ := h
      exact .some ⟨congrArg (Option.map (Fault.shift k)) hfault, congrArg (· + k) hsteps,
        { hrenumbered with }⟩

/-- Write `k` moves by one cell, all to the right or all to the left, in front of a source text.  On
a circular tape the new program stops if the old one does, and makes the same calls and `k` more
steps.  It has the same output, and the same fault with an address that is larger by `k`; its
pointer and all cells lie `k` cells further round in the sense of the moves.  Whether the programs
stop or not, the calls made at any time are the same, `k` instructions later. -/
theorem circular_tape_is_rotation_invariant {source : String}
    (hparse : Program.parse source = .ok p) (hcircular : config.addressing = .circular)
    (hnew : new config = .ok m) (sense : Sense) (k : Nat) :
    ∃ p', Program.parse (Source.moves sense k ++ source) = .ok p' ∧ ∀ s,
      (∀ n, m.callsWithin p' config.eof (k + n) s = m.callsWithin p config.eof n s) ∧
      ((∃ fuel, (m.run p' config.eof fuel s).isSome) ↔
        ∃ fuel, (m.run p config.eof fuel s).isSome) ∧
      ∀ fuel, Option.Rel
        (fun r r' => r'.fault = r.fault.map (Fault.shift k) ∧
          r'.machine.steps = r.machine.steps + k ∧
          r.Renumbered config.tapeLength.val
            (fun i => onCircle config.tapeLength.val (i + sense.sign * k)) r')
        (m.run p config.eof fuel s) (m.run p' config.eof (k + fuel) s) := by
  have hrotated := run_rotated (p := p) hcircular hnew sense k
  refine ⟨_, Program.parse_append (Program.parse_moves sense k) hparse, fun s =>
    ⟨fun n => ?_, ⟨?_, ?_⟩, fun fuel => hrotated fuel s⟩⟩
  · have hcalls := callsWithin_turned hcircular hnew .same (sense.sign * k) p n s
    have haddressing : m.tape.addressing = .circular :=
      (Reachable.new (p := p) hnew).madeFor.addressing_eq.trans hcircular
    rw [Sense.turn_same, Program.mapAction_id] at hcalls
    obtain ⟨tape, -, rfl⟩ := new_eq_ok_iff.1 hnew
    rw [callsWithin_behind_moves haddressing, hcalls]
  · -- fuel that is enough for the moves and the program is more than enough for the program
    rintro ⟨fuel, hstops⟩
    obtain ⟨r, hr⟩ := Option.isSome_iff_exists.1 hstops
    refine ⟨fuel, ?_⟩
    rw [isSome_eq_of_rel (hrotated fuel s), run_mono (Nat.le_add_left fuel k) hr]
    rfl
  · rintro ⟨fuel, hstops⟩
    exact ⟨k + fuel, isSome_eq_of_rel (hrotated fuel s) ▸ hstops⟩

/-- On three cells, four moves go once round and one cell further; the two runs cross the seam at
different moments. -/
theorem circular_tape_is_rotation_invariant_past_seam :
    let config : Config := { tapeLength := ⟨3, by decide, by decide⟩, addressing := .circular }
    Source.moves .opposite 4 = "<<<<" ∧
      ∃ (p p' : Program) (m : Machine) (r r' : Report), Program.parse "<-.>>+]" = .ok p ∧
        Program.parse (Source.moves .opposite 4 ++ "<-.>>+]") = .ok p' ∧ new config = .ok m ∧
        m.run p .zero 7 {} = some r ∧ m.run p' .zero 11 {} = some r' ∧
        r.machine.tape.cells = #[0, 1, 255] ∧ r.machine.tape.pointer = 1 ∧
        r'.machine.tape.cells[0]? = some 1 ∧ r'.machine.tape.cells[1]? = some 255 ∧
        r'.machine.tape.pointer = 0 ∧ r'.machine.steps = 10 ∧ r'.output = [255] ∧
        r.fault = some (.unmatchedLoopEnd 6) ∧ r'.fault = some (.unmatchedLoopEnd 10) := by
  intro config
  let p : Program :=
    { code := #[.moveLeft, .decrement, .output, .moveRight, .moveRight, .increment, .loopEnd]
      jumps := #[none, none, none, none, none, none, none], size_jumps := rfl }
  let m : Machine := { tape := ⟨#[0, 0, 0], 0, .circular, by decide⟩ }
  have hparse : Program.parse "<-.>>+]" = .ok p := by rfl
  have hnew : new config = .ok m := by rfl
  let r : Report := (m.run p .zero 7 {}).get (by decide)
  have hr : m.run p .zero 7 {} = some r := (Option.some_get _).symm
  obtain ⟨p', hparse', hruns⟩ := circular_tape_is_rotation_invariant hparse rfl hnew .opposite 4
  have hrun := (hruns {}).2.2 7
  rw [hr] at hrun
  generalize hr' : m.run p' config.eof (4 + 7) {} = stopped at hrun
  cases hrun with
  | @some _ r' h =>
      obtain ⟨hfault, hsteps, hrenumbered⟩ := h
      exact ⟨by decide, p, p', m, r, r', hparse, hparse', hnew, hr, hr', by decide, by decide,
        hrenumbered.cells_eq 1 (by decide), hrenumbered.cells_eq 2 (by decide),
        hrenumbered.pointer_eq, hsteps, hrenumbered.output_eq, by decide, hfault⟩

end Machine

end TapeMachine
