import TapeMachine.Proofs.FaultCause
import TapeMachine.Proofs.SourcePosition
import TapeMachine.Proofs.Trimming

/-!
# Where a message points

The message about a fault names the place of the faulting character in the source text and shows
that character with a mark below it.  The excerpt is cut out of the line of the place, so the
character and the mark have the same number of characters in front of them: two for the indent, and
what is left of the line before the place.
-/

namespace TapeMachine

/-- The instructions that a fault can be about. -/
def Fault.Concerns (config : Config) : Fault → Instruction → Prop
  | unmatchedLoopStart _, i => i = .loopStart
  | unmatchedLoopEnd _, i => i = .loopEnd
  | pointerOutOfRange _ pointer, i =>
      (pointer = config.tapeLength.val ∧ i = .moveRight) ∨ (pointer = -1 ∧ i = .moveLeft)
  | stream _ _, i => i = .output ∨ i = .input
  | tapeAllocation _, _ => False

theorem FaultCause.exists_concerns {p : Program} {config : Config} {m : Machine}
    {made : List Event} {fault : Fault} (h : FaultCause p config m made fault) :
    ∃ i, p.code[m.address]? = some i ∧ fault.Concerns config i := by
  cases h with
  | rightEdge _ hcode => exact ⟨_, hcode, .inl ⟨rfl, rfl⟩⟩
  | leftEdge _ hcode => exact ⟨_, hcode, .inr ⟨rfl, rfl⟩⟩
  | strayLoopEnd hcode => exact ⟨_, hcode, rfl⟩
  | failedCall hcode =>
      rcases hcode with hcode | hcode
      · exact ⟨_, hcode, .inl rfl⟩
      · exact ⟨_, hcode, .inr rfl⟩

namespace Diagnostic

def twoLines (context marker : List Char) : String :=
  String.ofList (context ++ '\n' :: marker ++ ['\n'])

/-- Two lines of text: an indented part of a line, and a mark below the character `c` in it. -/
structure Marks (c : Char) (context marker : List Char) : Prop where
  newline_notMem : '\n' ∉ context ∧ '\n' ∉ marker
  indent : [' ', ' '] <+: context
  count_mark : marker.count '^' = 1
  /-- The mark and the character stand at the same index, with at most 32 characters between the
  indent and the character, and at most 32 behind it. -/
  aligned : ∃ index, marker[index]? = some '^' ∧ context[index]? = some c ∧
    2 ≤ index ∧ index ≤ 2 + 32 ∧ context.length ≤ index + 1 + 32
  length_le : context.length ≤ 67

/-- How an excerpt shows a character. -/
def shownChar (c : Char) : Char :=
  if c = '\t' then ' ' else c

theorem newline_notMem_map_shownChar {text : List Char} (h : '\n' ∉ text) :
    '\n' ∉ text.map shownChar := by
  intro hmem
  obtain ⟨c, hc, hshown⟩ := List.mem_map.1 hmem
  unfold shownChar at hshown
  split at hshown
  · contradiction
  · exact h (hshown ▸ hc)

theorem marks_of_sides {c : Char} {left right : List Char} (hc : c ≠ '\n')
    (hleft : '\n' ∉ left) (hright : '\n' ∉ right) (hleft' : left.length ≤ 32)
    (hright' : right.length ≤ 32) :
    Marks c (' ' :: ' ' :: left ++ c :: right)
      (' ' :: ' ' :: List.replicate left.length ' ' ++ ['^']) where
  newline_notMem := by
    constructor
    · simp [hleft, hright, hc.symm]
    · simp [List.mem_replicate]
  indent := ⟨left ++ c :: right, rfl⟩
  count_mark := by simp [List.count_append, List.count_replicate]
  aligned := by
    refine ⟨left.length + 2, ?_, ?_, ?_, ?_, ?_⟩
    · simp
    · simp
    all_goals simp
    all_goals omega
  length_le := by
    simp
    omega

theorem excerpt_eq_twoLines (shown margin : List Char) :
    "  " ++ String.ofList shown ++ "\n  " ++ String.ofList margin ++ "^\n" =
      twoLines (' ' :: ' ' :: shown) (' ' :: ' ' :: margin ++ ['^']) := by
  apply String.toList_inj.1
  simp [twoLines]

/-- An excerpt of a line around a character points at that character, unless it is a tab. -/
theorem exists_marks_excerpt {line before after : List Char} {c : Char}
    (h : Text.dropEndWhile (· = '\r') line = before ++ c :: after) (htab : c ≠ '\t')
    (hc : c ≠ '\n') (hbefore : '\n' ∉ before) (hafter : '\n' ∉ after) :
    ∃ context marker, excerpt line before.length = twoLines context marker ∧
      Marks c context marker := by
  let left := (before.drop (before.length - reach)).map shownChar
  let right := (after.take reach).map shownChar
  have hleft : '\n' ∉ left := by
    apply newline_notMem_map_shownChar
    intro hmem
    exact hbefore (List.mem_of_mem_drop hmem)
  have hright : '\n' ∉ right := by
    apply newline_notMem_map_shownChar
    intro hmem
    exact hafter (List.mem_of_mem_take hmem)
  have hleft' : left.length ≤ 32 := by
    rw [List.length_map, List.length_drop, reach]
    omega
  have hright' : right.length ≤ 32 := by
    rw [List.length_map, List.length_take, reach]
    omega
  refine ⟨_, _, ?_, marks_of_sides hc hleft hright hleft' hright'⟩
  have hstart : before.length - reach ≤ before.length := Nat.sub_le _ _
  have hlength : before.length - (before.length - reach) =
      (before.drop (before.length - reach)).length := List.length_drop.symm
  have hshown : shownChar = fun c => if c = '\t' then ' ' else c := rfl
  have hself : shownChar c = c := if_neg htab
  -- the window starts with `left`, so its length is that of `left` and `reach + 1` more
  rw [excerpt, h, List.drop_append_of_le_length hstart, hlength, Nat.add_assoc,
    List.take_length_add_append, List.take_succ_cons, ← hshown, List.map_append, List.map_cons,
    hself, List.length_map]
  exact excerpt_eq_twoLines _ _

/-- The message about a fault in a text names the place of a character that the fault is about and
points at it.  The address counts the instructions in front of the character, the line counts the
newlines there, and the column counts the characters behind the last newline. -/
def Locates (config : Config) (origin source : String) (fault : Fault) : Prop :=
  ∃ before after i address position context marker,
    source.toList = before ++ Instruction.toChar i :: after ∧ fault.Concerns config i ∧
      fault.address? = some address ∧
      address = (before.filterMap Instruction.ofChar?).length ∧
      position = Position.mk (before.count '\n' + 1) ((Text.openLine before).length + 1) ∧
      render origin source fault false =
        s!"{label fault} at {origin}:{position.line}:{position.column} (instruction {address})\n" ++
          twoLines context marker ∧
      Marks i.toChar context marker

variable {config : Config} {origin source : String} {fault : Fault}

theorem render_of_offset?_eq_none
    (h : ∀ address, fault.address? = some address → Source.offset? source address = none) :
    render origin source fault false = s!"{label fault}\n" := by
  have hnone : (fault.address?.bind fun address =>
      (Source.offset? source address).map (address, ·)) = none := by
    cases haddress : fault.address? with
    | none => rfl
    | some address => simp [h address haddress]
  rw [render, hnone]
  rfl

theorem locates_of_split {before after : List Char} {i : Instruction}
    (hsource : source.toList = before ++ i.toChar :: after)
    (haddress : fault.address? = some (before.filterMap Instruction.ofChar?).length)
    (hconcerns : fault.Concerns config i) : Locates config origin source fault := by
  have hcode : (Instruction.ofChar? i.toChar).isSome := by simp
  have hnewline : i.toChar ≠ '\n' := by cases i <;> decide
  have hreturn : i.toChar ≠ '\r' := by cases i <;> decide
  have htab : i.toChar ≠ '\t' := by cases i <;> decide
  have hpiece : (i.toChar :: after).takeWhile (· ≠ '\n') =
      i.toChar :: after.takeWhile (· ≠ '\n') :=
    List.takeWhile_cons_of_pos (by simpa using hnewline)
  -- an empty last piece is no line, but this piece holds the faulting character
  have hne : Text.openLine before ++ (i.toChar :: after).takeWhile (· ≠ '\n') ≠ [] := by
    rw [hpiece]
    exact List.append_ne_nil_of_right_ne_nil _ (List.cons_ne_nil _ _)
  obtain ⟨line, hline, hpieces⟩ := Text.getElem?_lines before (i.toChar :: after) hne
  rw [← hsource] at hline
  have htrimmed : Text.dropEndWhile (· = '\r') line = Text.openLine before ++
      i.toChar :: Text.dropEndWhile (· = '\r') (after.takeWhile (· ≠ '\n')) := by
    rw [hpiece] at hpieces
    -- the carriage returns that go are behind the faulting character, whether or not the one in
    -- front of the newline is still there
    rcases hpieces with rfl | rfl
    · exact Text.dropEndWhile_append_cons (by simpa using hreturn) _ _
    · rw [Text.dropEndWhile_dropReturn (by simp)]
      exact Text.dropEndWhile_append_cons (by simpa using hreturn) _ _
  have hrest : '\n' ∉ Text.dropEndWhile (· = '\r') (after.takeWhile (· ≠ '\n')) := by
    intro hmem
    exact Text.newline_notMem_takeWhile after ((List.rdropWhile_prefix _ _).subset hmem)
  obtain ⟨context, marker, hexcerpt, hmarks⟩ :=
    exists_marks_excerpt htrimmed htab hnewline (Text.newline_notMem_openLine before) hrest
  refine ⟨before, after, i, _, _, context, marker, hsource, hconcerns, haddress, rfl, rfl, ?_,
    hmarks⟩
  rw [← hexcerpt, render, haddress, Option.bind_some, Source.offset?_split hsource hcode,
    Option.map_some]
  simp only [Position.ofOffset_length hsource, Nat.add_sub_cancel, hline]
  rfl

theorem locates_of_getElem? {address : Nat} {i : Instruction}
    (hcode : (Instruction.ofSource source)[address]? = some i)
    (haddress : fault.address? = some address) (hconcerns : fault.Concerns config i) :
    Locates config origin source fault := by
  obtain ⟨before, c, after, hsource, hc, rfl⟩ := Source.exists_split hcode
  obtain rfl := Instruction.ofChar?_eq_some_iff.1 hc
  exact locates_of_split hsource haddress hconcerns

theorem locates_of_parse (h : Program.parse source = .error fault) :
    Locates config origin source fault := by
  obtain ⟨address, hlast, rfl⟩ := Program.ofCode_eq_error_iff.1 h
  have hcode := (LoopScan.mem_openAt (List.mem_of_getLast? hlast)).2
  exact locates_of_getElem? hcode rfl rfl

/-- What the message about a fault shows, whichever part of the work failed.  Faults without an
instruction, which are a tape that cannot be had and a failed flush behind the last instruction,
are shown by their label alone.  Every other message names the place of the faulting character in
the source text and points at that character. -/
theorem render_of_fault (config : Config) (origin source : String) (fault : Fault) :
    (Program.parse source = .error fault → Locates config origin source fault) ∧
      ∀ p, Program.parse source = .ok p →
        (Machine.new config = .error fault → fault = .tapeAllocation config.tapeLength.val ∧
          render origin source fault false = s!"{label fault}\n") ∧
        ∀ m s fuel r, Machine.Reachable p config m → m.run p config.eof fuel s = some r →
          r.fault = some fault →
            (r.machine.address = p.size → (∃ e, fault = .stream p.size e) ∧
              render origin source fault false = s!"{label fault}\n") ∧
            (r.machine.address ≠ p.size → Locates config origin source fault) := by
  refine ⟨locates_of_parse, ?_⟩
  intro p hparse
  have hp : p.Paired := Program.paired_of_parse hparse
  have hcode := Program.toList_code_of_parse hparse
  constructor
  · intro hnew
    obtain ⟨-, rfl⟩ := Machine.new_eq_error_iff.1 hnew
    refine ⟨rfl, ?_⟩
    apply render_of_offset?_eq_none
    intro address haddress
    contradiction
  · intro m s fuel r hm hr hf
    have hreach : Machine.Reachable p config r.machine := hm.run hr
    obtain ⟨n, d, -, hmachine, ⟨-, s', made, -, hs, -⟩ | ⟨-, hle, e, rfl, -⟩⟩ :=
      Machine.fault_cases_of_run hr hf
    · rw [hmachine] at hs
      have hstep := Machine.step_of_step? hs
      have hcause : FaultCause p config r.machine made fault :=
        hstep.cause hp hreach.madeFor rfl
      obtain ⟨i, hi, hconcerns⟩ := hcause.exists_concerns
      rw [← Array.getElem?_toList, hcode] at hi
      constructor
      · intro hend
        exact absurd hend hstep.lt_size.ne
      · intro _
        exact locates_of_getElem? hi hcause.address?_eq hconcerns
    · -- the last flush failed, and behind the last instruction there is no place to show
      have hend : r.machine.address = p.size :=
        le_antisymm (hreach.aligned hp).address_le hle
      constructor
      · intro _
        refine ⟨⟨e, by rw [hend]⟩, ?_⟩
        apply render_of_offset?_eq_none
        intro address haddress
        obtain rfl : r.machine.address = address := Option.some.inj haddress
        apply Source.offset?_eq_none
        rw [← hcode, Array.length_toList]
        exact hle
      · intro hne
        exact absurd hend hne

/-- The first text is refused.  In the second one a comment, a tab and a carriage return stand in
front of the move that leaves the tape. -/
theorem render_of_fault_open_and_edge :
    (Program.parse "+ é\n\t[." = .error (.unmatchedLoopStart 1) ∧
      Locates {} "prog" "+ é\n\t[." (.unmatchedLoopStart 1)) ∧
    ∃ (p : Program) (m : Machine) (r : Report),
      Program.parse "add +\r\n\té\r> right" = .ok p ∧
      Machine.Reachable p { tapeLength := ⟨1, by decide, by decide⟩ } m ∧
      m.run p .zero 3 {} = some r ∧ r.fault = some (.pointerOutOfRange 1 1) ∧
      r.machine.address ≠ p.size ∧
      Locates { tapeLength := ⟨1, by decide, by decide⟩ } "prog" "add +\r\n\té\r> right"
        (.pointerOutOfRange 1 1) := by
  constructor
  · have hparse : Program.parse "+ é\n\t[." = .error (.unmatchedLoopStart 1) := by rfl
    exact ⟨hparse, (render_of_fault {} "prog" _ _).1 hparse⟩
  · let config : Config := { tapeLength := ⟨1, by decide, by decide⟩ }
    let p : Program :=
      { code := #[.increment, .moveRight], jumps := #[none, none], size_jumps := rfl }
    let m : Machine := { tape := ⟨#[0], 0, .bounded, by decide⟩ }
    have hparse : Program.parse "add +\r\n\té\r> right" = .ok p := by rfl
    have hm : Machine.Reachable p config m := Machine.Reachable.new (by rfl)
    let r : Report := (m.run p .zero 3 {}).get (by decide)
    have hr : m.run p .zero 3 {} = some r := (Option.some_get _).symm
    have hf : r.fault = some (.pointerOutOfRange 1 1) := by decide
    have hinside : r.machine.address ≠ p.size := by decide
    have hruns := ((render_of_fault config "prog" _ _).2 p hparse).2 m {} 3 r hm hr hf
    exact ⟨p, m, r, hparse, hm, hr, hf, hinside, hruns.2 hinside⟩

end Diagnostic

end TapeMachine
