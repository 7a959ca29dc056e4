import TapeMachine.Proofs.Circle

/-!
# Programs with right and left exchanged

If all moves of a program are turned round, it goes the other way round a circular tape and meets
the same cells in the same order.  So it does the same as the program itself, and at the end its
tape is the mirror image of the other one, with the first cell in its place.
-/

namespace TapeMachine

/-- The character for the same instruction in a mirror. -/
def Source.mirror (c : Char) : Char :=
  if c = '>' then '<' else if c = '<' then '>' else c

/-- The text with every `>` and `<` exchanged. -/
def Source.mirrored (source : String) : String :=
  String.ofList (source.toList.map mirror)

namespace Instruction

theorem ofChar?_mirror (c : Char) :
    ofChar? (Source.mirror c) = (ofChar? c).map (mapAction Sense.opposite.turn) := by
  cases hc : ofChar? c with
  | some i =>
      rw [ofChar?_eq_some_iff.1 hc]
      cases i <;> rfl
  | none =>
      -- the characters that are exchanged are no comments
      have hright : c ≠ '>' := by
        rintro rfl
        contradiction
      have hleft : c ≠ '<' := by
        rintro rfl
        contradiction
      rw [Source.mirror, if_neg hright, if_neg hleft, hc, Option.map_none]

theorem ofSource_mirrored (source : String) :
    ofSource (Source.mirrored source) =
      (ofSource source).map (mapAction Sense.opposite.turn) := by
  rw [ofSource, Source.mirrored, String.toList_ofList, List.filterMap_map, ofSource,
    List.map_filterMap]
  exact congrArg (source.toList.filterMap ·) (funext ofChar?_mirror)

end Instruction

theorem Program.parse_mirrored {source : String} {p : Program} (h : parse source = .ok p) :
    parse (Source.mirrored source) = .ok (p.mapAction Sense.opposite.turn) := by
  rw [parse, Instruction.ofSource_mirrored]
  exact ofCode_mapAction h

theorem Sense.place_opposite {n i : Nat} (hi : i < n) : opposite.place n 0 i = (n - i) % n := by
  have hmod : opposite.sign * i + 0 ≡ ((n - i : Nat) : Int) [ZMOD n] := by
    calc opposite.sign * i + 0 = 0 - (i : Int) := by rw [sign, neg_one_mul, add_zero, zero_sub]
      _ ≡ n - i [ZMOD n] := Int.modulus_modEq_zero.symm.sub_right i
      _ = ((n - i : Nat) : Int) := (Nat.cast_sub hi.le).symm
  rw [place, (onCircle_eq_iff (Nat.zero_lt_of_lt hi)).2 hmod, onCircle, ← Int.natCast_mod,
    Int.toNat_natCast]

namespace Machine

variable {p : Program} {config : Config} {m : Machine}

/-- Exchange every `>` and `<` of a source text.  On a circular tape the new program stops if the
old one does, with the same calls, steps and output and with the same fault at the same address;
its tape and its pointer are mirrored at the first cell.  Whether the programs stop or not, the
calls made at any time are the same. -/
theorem circular_tape_is_mirror_symmetric {source : String}
    (hparse : Program.parse source = .ok p) (hcircular : config.addressing = .circular)
    (hnew : new config = .ok m) :
    ∃ p', Program.parse (Source.mirrored source) = .ok p' ∧ ∀ s,
      (∀ n, m.callsWithin p' config.eof n s = m.callsWithin p config.eof n s) ∧
      ∀ fuel, Option.Rel
        (fun r r' => r'.fault = r.fault ∧ r'.machine.steps = r.machine.steps ∧
          r.Renumbered config.tapeLength.val
            (fun i => (config.tapeLength.val - i) % config.tapeLength.val) r')
        (m.run p config.eof fuel s) (m.run p' config.eof fuel s) := by
  have hcalls := callsWithin_turned hcircular hnew .opposite 0 p
  have hrun := run_turned hcircular hnew (fun i hi => Sense.place_opposite hi) p
  rw [Tape.roll_zero] at hcalls hrun
  obtain ⟨tape, -, rfl⟩ := new_eq_ok_iff.1 hnew
  exact ⟨_, Program.parse_mirrored hparse, fun s => ⟨fun n => hcalls n s, fun fuel => hrun fuel s⟩⟩

/-- The program goes once round three cells in a loop, reads, and cannot write at the end. -/
theorem circular_tape_is_mirror_symmetric_round_trip :
    let config : Config := { tapeLength := ⟨3, by decide, by decide⟩, addressing := .circular }
    let s : Streams := { reads := [.byte 2], writes := [.refused] }
    Source.mirrored ">,[<+<-]>." = "<,[>+>-]<." ∧
      ∃ (p p' : Program) (m : Machine) (r r' : Report), Program.parse ">,[<+<-]>." = .ok p ∧
        Program.parse (Source.mirrored ">,[<+<-]>.") = .ok p' ∧ new config = .ok m ∧
        m.run p .zero 15 s = some r ∧ m.run p' .zero 15 s = some r' ∧
        r.machine.tape.cells = #[0, 3, 255] ∧ r.machine.tape.pointer = 1 ∧
        r'.machine.tape.cells[1]? = some 255 ∧ r'.machine.tape.cells[2]? = some 3 ∧
        r'.machine.tape.pointer = 2 ∧ r'.machine.steps = r.machine.steps ∧
        r.fault = some (.stream 9 .nothingWritten) ∧ r'.fault = r.fault := by
  intro config s
  let p : Program :=
    { code := #[.moveRight, .input, .loopStart, .moveLeft, .increment, .moveLeft, .decrement,
        .loopEnd, .moveRight, .output]
      jumps := #[none, none, some 7, none, none, none, none, none, none, none], size_jumps := rfl }
  let m : Machine := { tape := ⟨#[0, 0, 0], 0, .circular, by decide⟩ }
  have hparse : Program.parse ">,[<+<-]>." = .ok p := by rfl
  have hnew : new config = .ok m := by rfl
  let r : Report := (m.run p .zero 15 s).get (by decide)
  have hr : m.run p .zero 15 s = some r := (Option.some_get _).symm
  have hcells : r.machine.tape.cells = #[0, 3, 255] := by decide
  have hpointer : r.machine.tape.pointer = 1 := by decide
  have hstopped : r.fault = some (.stream 9 .nothingWritten) := by decide
  obtain ⟨p', hparse', hruns⟩ := circular_tape_is_mirror_symmetric hparse rfl hnew
  have hrun := (hruns s).2 15
  rw [hr] at hrun
  generalize hr' : m.run p' config.eof 15 s = stopped at hrun
  cases hrun with
  | @some _ r' h =>
      obtain ⟨hfault, hsteps, hrenumbered⟩ := h
      have hpointer' : r'.machine.tape.pointer = 2 := by
        rw [hrenumbered.pointer_eq, hpointer]
        rfl
      have hlast : r'.machine.tape.cells[2]? = some 3 :=
        (hrenumbered.cells_eq 1 (by decide)).trans (hcells ▸ rfl)
      have hmiddle : r'.machine.tape.cells[1]? = some 255 :=
        (hrenumbered.cells_eq 2 (by decide)).trans (hcells ▸ rfl)
      exact ⟨by decide, p, p', m, r, r', hparse, hparse', hnew, hr, hr', hcells, hpointer, hmiddle,
        hlast, hpointer', hsteps, hstopped, hfault⟩

end Machine

end TapeMachine
