import TapeMachine.Proofs.Numeral
import TapeMachine.Proofs.SettingsSeam

/-!
# Writing settings files

The layout of an assignment does not matter: blanks, a pair of quotes around the value and a comment
behind it leave it the same assignment.  So settings that are written to a file, one line for each
parameter that is not open, are read back as they were, whatever the order and the layout of the
lines.
-/

namespace TapeMachine

/-- The assignment that an entry makes in the place known as `origin`. -/
def Assignment.ofEntry (origin : String) (entry : Key × String) : Assignment :=
  ⟨origin, entry.1, entry.2⟩

namespace Settings

/-- The entries of a file that says what these settings say. -/
def entries (s : Settings) : List (Key × String) :=
  (s.tapeLength.map fun count => (Key.tapeLength, count.val.repr)).toList ++
    (s.addressing.map fun mode => (Key.addressing, mode.name)).toList ++
      (s.eof.map fun policy => (Key.eof, policy.name)).toList

theorem assign_digits (count : CellCount) :
    ({} : Settings).assign .tapeLength count.val.repr = .ok { tapeLength := some count } := by
  have hparse : CellCount.parse count.val.repr = .ok count := by
    rw [CellCount.parse_eq_ok_iff, Nat.repr_eq_ofList_toDigits, String.toList_ofList]
    exact Numeral.denotes_toDigits count.val
  rw [assign_tapeLength, hparse]
  rfl

theorem assign_addressing_name (mode : Addressing) :
    ({} : Settings).assign .addressing mode.name = .ok { addressing := some mode } := by
  cases mode <;> decide +kernel

theorem assign_eof_name (policy : EofPolicy) :
    ({} : Settings).assign .eof policy.name = .ok { eof := some policy } := by
  cases policy <;> decide +kernel

variable {s : Settings} {written : List (Key × String)}

theorem ignored?_of_mem_entries {entry : Key × String} (h : entry ∈ s.entries) (origin : String) :
    (Assignment.ofEntry origin entry).ignored? = none := by
  rw [entries, List.mem_append, List.mem_append] at h
  simp only [Option.mem_toList, Option.map_eq_some_iff] at h
  rcases h with (⟨count, -, rfl⟩ | ⟨mode, -, rfl⟩) | ⟨policy, -, rfl⟩
  · rw [Assignment.ofEntry, Assignment.ignored?, assign_digits]
  · rw [Assignment.ofEntry, Assignment.ignored?, assign_addressing_name]
  · rw [Assignment.ofEntry, Assignment.ignored?, assign_eof_name]

theorem filterMap_said_entries (s : Settings) (origin : String) :
    let said (entry : Key × String) := (Assignment.ofEntry origin entry).said
    s.entries.filterMap (fun entry => (said entry).tapeLength) = s.tapeLength.toList ∧
      s.entries.filterMap (fun entry => (said entry).addressing) = s.addressing.toList ∧
        s.entries.filterMap (fun entry => (said entry).eof) = s.eof.toList := by
  obtain ⟨_ | count, _ | mode, _ | policy⟩ := s <;>
    simp [entries, Assignment.ofEntry, Assignment.said, assign_digits, assign_addressing_name,
      assign_eof_name, Except.toOption]

/-- Each parameter is given once at most, so the order does not matter. -/
theorem field_ofAssignments_entries {α : Type} {field : Settings → Option α} {origin : String}
    (hopen : field {} = none)
    (hoverlay : ∀ lower upper, field (lower.overlay upper) = (field upper).or (field lower))
    (hfield : s.entries.filterMap (fun entry => field (Assignment.ofEntry origin entry).said) =
      (field s).toList)
    (h : written.Perm s.entries) :
    field (Reading.ofAssignments (written.map (.ofEntry origin))).settings = field s := by
  have hperm := h.filterMap fun entry => field (Assignment.ofEntry origin entry).said
  have hsaid : written.filterMap (fun entry => field (Assignment.ofEntry origin entry).said) =
      (field s).toList := by
    rw [hfield] at hperm
    cases hs : field s with
    | none => rwa [hs, Option.toList_none, List.perm_nil] at hperm
    | some value => rwa [hs, Option.toList_some, List.perm_singleton] at hperm
  rw [Reading.ofAssignments_getLast? hopen hoverlay, List.filterMap_map]
  change (written.filterMap fun entry => field (Assignment.ofEntry origin entry).said).getLast? = _
  rw [hsaid]
  cases field s <;> rfl

theorem ofAssignments_entries (h : written.Perm s.entries) (origin : String) :
    Reading.ofAssignments (written.map (.ofEntry origin)) = { settings := s, ignored := #[] } := by
  obtain ⟨htapeLength, haddressing, heof⟩ := filterMap_said_entries s origin
  have htapeLength := field_ofAssignments_entries rfl (fun _ _ => rfl) htapeLength h
  have haddressing := field_ofAssignments_entries rfl (fun _ _ => rfl) haddressing h
  have heof := field_ofAssignments_entries rfl (fun _ _ => rfl) heof h
  have hsettings : (Reading.ofAssignments (written.map (.ofEntry origin))).settings = s :=
    congr (congrArg₂ Settings.mk htapeLength haddressing) heof
  have hignored : (Reading.ofAssignments (written.map (.ofEntry origin))).ignored = #[] := by
    rw [← Array.toList_eq_nil_iff, Reading.toList_ignored_ofAssignments, List.filterMap_map,
      List.filterMap_eq_nil_iff]
    intro entry hentry
    exact ignored?_of_mem_entries (h.mem_iff.1 hentry) origin
  exact congrArg₂ Reading.mk hsettings hignored

namespace File

open Text

/-! ## Layouts -/

/-- The line consists of the text with blanks around it, and possibly a comment behind. -/
def Shows (line text : List Char) : Prop :=
  '\n' ∉ line ∧ ∃ front back comment, Blank front ∧ Blank back ∧
    (comment = [] ∨ ∃ remark, comment = '#' :: remark) ∧ line = front ++ text ++ back ++ comment

/-- The ways to write a value. -/
inductive WritesValue (value : List Char) : List Char → Prop where
  | bare (htrim : trim value = value) (hsign : '#' ∉ value) (hquote : '"' ∉ value) :
      WritesValue value value
  | quoted (hquote : '"' ∉ value) : WritesValue value ('"' :: value ++ ['"'])

/-- The ways to write an assignment. -/
def Writes (key : Key) (value line : String) : Prop :=
  ∃ before after text, Blank before ∧ Blank after ∧ WritesValue value.toList text ∧
    Shows line.toList (key.name.toList ++ before ++ '=' :: (after ++ text))

/-- The ways to write the header of the section of the settings. -/
def WritesHeader (line : String) : Prop :=
  ∃ before after, Blank before ∧ Blank after ∧
    Shows line.toList ('[' :: (before ++ "interpreter".toList ++ after) ++ [']'])

/-! ## Texts without loose ends -/

/-- No comment begins in the text, and no quote is open behind it. -/
def Closed (text : List Char) : Prop :=
  ∀ kept rest, stripCommentFrom false kept (text ++ rest) =
    stripCommentFrom false (text.reverse ++ kept) rest

theorem Closed.append {text text' : List Char} (h : Closed text) (h' : Closed text') :
    Closed (text ++ text') := by
  intro kept rest
  rw [List.append_assoc, h, h', List.reverse_append, List.append_assoc]

theorem closed_of_blank {blanks : List Char} (h : Blank blanks) : Closed blanks :=
  stripCommentFrom_append_of_blank h false

theorem closed_of_plain {text : List Char} (hsign : '#' ∉ text) (hquote : '"' ∉ text) :
    Closed text := by
  apply stripCommentFrom_append
  intro c hc
  constructor
  · rintro rfl
    exact (hsign hc).elim
  · rintro rfl
    exact hquote hc

theorem closed_quoted {value : List Char} (hquote : '"' ∉ value) :
    Closed ('"' :: value ++ ['"']) := by
  intro kept rest
  -- the first quote opens, so number signs are kept until the last quote closes
  have hinner : stripCommentFrom true ('"' :: kept) (value ++ '"' :: rest) =
      stripCommentFrom true (value.reverse ++ '"' :: kept) ('"' :: rest) := by
    apply stripCommentFrom_append
    intro c hc
    refine ⟨fun _ => rfl, ?_⟩
    rintro rfl
    exact hquote hc
  calc
    stripCommentFrom false kept ('"' :: value ++ ['"'] ++ rest)
        = stripCommentFrom true ('"' :: kept) (value ++ '"' :: rest) := by
      rw [List.append_assoc]
      rfl
    _ = stripCommentFrom true (value.reverse ++ '"' :: kept) ('"' :: rest) := hinner
    _ = stripCommentFrom false ('"' :: (value.reverse ++ '"' :: kept)) rest := rfl
    _ = stripCommentFrom false (('"' :: value ++ ['"']).reverse ++ kept) rest := by
      simp

theorem payload_of_shows {line text : List Char} (hclosed : Closed text) (h : Shows line text) :
    payload line = trim text := by
  obtain ⟨-, front, back, comment, hfront, hback, hcomment, rfl⟩ := h
  -- everything up to the comment is kept, and the comment is not
  have hkept := ((closed_of_blank hfront).append hclosed).append (closed_of_blank hback)
  have hstop : ∀ kept, stripCommentFrom false kept comment = kept.reverse := by
    intro kept
    rcases hcomment with rfl | ⟨remark, rfl⟩ <;> rfl
  rw [← trim_stripComment, stripComment, hkept, hstop, List.append_nil, List.reverse_reverse,
    trim_append_blank hback, trim_blank_append hfront]

namespace WritesValue

variable {value text : List Char}

theorem closed (h : WritesValue value text) : Closed text := by
  cases h with
  | bare _ hsign hquote => exact closed_of_plain hsign hquote
  | quoted hquote => exact closed_quoted hquote

theorem trim_eq (h : WritesValue value text) : trim text = text := by
  cases h with
  | bare htrim => exact htrim
  | quoted => exact trim_enclosed (by decide) (by decide) value

theorem unquotes (h : WritesValue value text) : Unquotes text value := by
  cases h with
  | bare _ _ hquote =>
      refine .inr ⟨rfl, ?_⟩
      rintro inner rfl
      simp at hquote
  | quoted => exact .inl rfl

end WritesValue

theorem isHeader_of_writesHeader {line : String} (h : WritesHeader line) :
    IsHeader line.toList "interpreter".toList := by
  obtain ⟨before, after, hbefore, hafter, hline⟩ := h
  have hleft : Closed ['['] := closed_of_plain (by decide) (by decide)
  have hname : Closed "interpreter".toList := closed_of_plain (by decide) (by decide)
  have hright : Closed [']'] := closed_of_plain (by decide) (by decide)
  have hinner : Closed (before ++ "interpreter".toList ++ after) :=
    ((closed_of_blank hbefore).append hname).append (closed_of_blank hafter)
  have hclosed : Closed ('[' :: (before ++ "interpreter".toList ++ after) ++ [']']) :=
    (hleft.append hinner).append hright
  refine ⟨before ++ "interpreter".toList ++ after, ?_, ?_⟩
  · rw [payload_of_shows hclosed hline, trim_enclosed (by decide) (by decide)]
  · rw [trim_append_blank hafter, trim_blank_append hbefore]
    decide

/-- The names of the keys are words that stand for themselves. -/
theorem exists_name_eq_cons (key : Key) :
    ∃ c name, key.name.toList = c :: name ∧ c ≠ '[' ∧ ¬ isBlank c ∧
      trim (c :: name) = c :: name ∧ '=' ∉ c :: name ∧ Closed (c :: name) := by
  have hclosed : Closed key.name.toList := by
    apply closed_of_plain <;> cases key <;> decide
  cases hname : key.name.toList with
  | nil => cases key <;> contradiction
  | cons c name =>
      refine ⟨c, name, rfl, ?_⟩
      rw [hname] at hclosed
      cases key <;> cases hname <;> exact ⟨by decide, by decide, by decide, by decide, hclosed⟩

/-- However it is laid out, the line is the assignment. -/
theorem ofText_of_writes {key : Key} {value line : String} (h : Writes key value line) :
    Line.ofText line.toList = .assignment key.name.toList value.toList := by
  obtain ⟨before, after, text, hbefore, hafter, hvalue, hline⟩ := h
  obtain ⟨c, name, hname, hbracket, hblank, htrim, hequals, hkey⟩ := exists_name_eq_cons key
  rw [hname] at hline ⊢
  have hsign : Closed ['='] := closed_of_plain (by decide) (by decide)
  have hclosed : Closed (c :: name ++ before ++ '=' :: (after ++ text)) :=
    (hkey.append (closed_of_blank hbefore)).append
      (hsign.append ((closed_of_blank hafter).append hvalue.closed))
  have hpayload : payload line.toList =
      c :: name ++ before ++ '=' :: dropEndWhile isBlank (after ++ text) := by
    rw [payload_of_shows hclosed hline, List.cons_append,
      trim_cons_append_cons hblank (by decide)]
  rw [ofText_eq_assignment_iff]
  refine ⟨?_, c :: name ++ before, dropEndWhile isBlank (after ++ text), hpayload, ?_, ?_, ?_⟩
  · -- the line begins with the name of a key, so it is no header
    rintro _ ⟨inner, hheader, -⟩
    rw [hpayload] at hheader
    exact hbracket (List.cons.inj hheader).1
  · intro hmem
    rcases List.mem_append.1 hmem with hmem | hmem
    · exact hequals hmem
    · exact absurd (hbefore _ hmem) (by decide)
  · rw [trim_append_blank hbefore, htrim]
  · rw [trim_dropEndWhile, trim_blank_append hafter, hvalue.trim_eq]
    exact hvalue.unquotes

/-! ## Written files -/

theorem scanText_of_notMem (origin : String) (s : Scan) {line : List Char} (h : '\n' ∉ line) :
    scanText origin s line = s.push origin (Line.ofText line) := by
  rw [scanText_eq, allPieces_of_notMem h]
  rfl

theorem scanText_of_writesHeader {header : String} (h : WritesHeader header) (origin : String)
    (s : Scan) : scanText origin s header.toList = ⟨true, s.found⟩ := by
  have hheader := ofText_eq_header_iff.2 (isHeader_of_writesHeader h)
  obtain ⟨-, -, -, -, hnewline, -⟩ := h
  rw [scanText_of_notMem origin s hnewline, hheader]
  rfl

theorem scanText_of_writes {key : Key} {value line : String} (h : Writes key value line)
    (origin : String) (found : Array Assignment) :
    scanText origin ⟨true, found⟩ line.toList = ⟨true, found.push ⟨origin, key, value⟩⟩ := by
  have hassignment := ofText_of_writes h
  obtain ⟨-, -, -, -, -, -, hnewline, -⟩ := h
  rw [scanText_of_notMem origin _ hnewline, hassignment]
  simp [Scan.push]

/-- In the section of the settings the line adds its assignment to those in front of it. -/
theorem scanText_append_writes {before line value : String} {key : Key}
    (hbefore : InSection (lines before.toList)) (h : Writes key value line) (origin : String) :
    scanText origin {} (before ++ "\n" ++ line).toList =
      ⟨true, (scanText origin {} before.toList).found.push ⟨origin, key, value⟩⟩ := by
  have htext : (before ++ "\n" ++ line).toList = before.toList ++ '\n' :: line.toList := by simp
  have hinside : (scanText origin {} before.toList).inside = true :=
    (inside_scan_iff origin _).2 hbefore
  rw [htext, scanText_append_newline, ← scanText_of_writes h, ← hinside]

theorem assignments_append_writes {before line value : String} {key : Key}
    (hbefore : InSection (lines before.toList)) (h : Writes key value line) (origin : String) :
    assignments origin (before ++ "\n" ++ line) =
      assignments origin before ++ [⟨origin, key, value⟩] := by
  rw [assignments_eq, assignments_eq, scanText_append_writes hbefore h, Array.toList_push]

/-- What stands below the line is in the section of the settings still. -/
theorem assignments_append_writes_append {before line value : String} {key : Key}
    (hbefore : InSection (lines before.toList)) (h : Writes key value line)
    (origin after : String) :
    assignments origin (before ++ "\n" ++ line ++ "\n" ++ after) =
      assignments origin (before ++ "\n" ++ line) ++
        assignments origin ("[interpreter]\n" ++ after) := by
  have htext : (before ++ "\n" ++ line ++ "\n" ++ after).toList =
      (before ++ "\n" ++ line).toList ++ '\n' :: after.toList := by simp
  have hheader : ("[interpreter]\n" ++ after).toList =
      "[interpreter]".toList ++ '\n' :: after.toList := by simp
  have hopen : scanText origin {} "[interpreter]".toList = ⟨true, #[]⟩ := rfl
  rw [assignments_eq, assignments_eq, assignments_eq, htext, hheader, scanText_append_newline,
    scanText_append_newline, hopen, toList_found_scanText, scanText_append_writes hbefore h]

theorem scanText_intercalate (origin : String) (s : Scan) (first : String) (rest : List String) :
    scanText origin s ("\n".intercalate (first :: rest)).toList =
      rest.foldl (fun s line => scanText origin s line.toList)
        (scanText origin s first.toList) := by
  induction rest generalizing first s with
  | nil => rw [String.intercalate_singleton, List.foldl_nil]
  | cons next rest ih =>
      have htext : ("\n".intercalate (first :: next :: rest)).toList =
          first.toList ++ '\n' :: ("\n".intercalate (next :: rest)).toList := by
        simp [String.intercalate_cons_cons]
      rw [htext, scanText_append_newline, ih, List.foldl_cons]

theorem toList_found_foldl_scanText {written : List (Key × String)} {rest : List String}
    (h : List.Forall₂ (fun entry line => Writes entry.1 entry.2 line) written rest)
    (origin : String) (found : Array Assignment) :
    (rest.foldl (fun s line => scanText origin s line.toList) ⟨true, found⟩).found.toList =
      found.toList ++ written.map (.ofEntry origin) := by
  induction h generalizing found with
  | nil => simp
  | cons hline hrest ih =>
      rw [List.foldl_cons, scanText_of_writes hline, ih, Array.toList_push, List.map_cons,
        List.append_assoc, List.singleton_append, Assignment.ofEntry]

/-- A header with assignments below it; the last line may end with a newline. -/
theorem assignments_written {written : List (Key × String)} {header last : String}
    {rest : List String} (hheader : WritesHeader header)
    (h : List.Forall₂ (fun entry line => Writes entry.1 entry.2 line) written rest)
    (hlast : last ∈ ["", "\n"]) (origin : String) :
    assignments origin ("\n".intercalate (header :: rest) ++ last) =
      written.map (.ofEntry origin) := by
  have hend : scanText origin {} ("\n".intercalate (header :: rest) ++ last).toList =
      scanText origin {} ("\n".intercalate (header :: rest)).toList := by
    rw [String.toList_append]
    rcases List.mem_pair.1 hlast with rfl | rfl
    · simp
    · exact scanText_append_newline origin {} _ []
  rw [assignments_eq, hend, scanText_intercalate, scanText_of_writesHeader hheader,
    toList_found_foldl_scanText h]
  rfl

/-- The layout of a settings file does not matter.  A line in the section of the settings that gives
a value to a key, in whatever way the assignment is written, adds just this assignment to what the
lines above it come to, and the lines below go on from there.  So settings whose entries are written
line by line below a header, in whatever order, are read back without a complaint. -/
theorem layout_does_not_matter (origin : String) :
    (∀ (key : Key) (value line before : String), Writes key value line →
      InSection (lines before.toList) →
      read origin (before ++ "\n" ++ line) =
          (read origin before).push ⟨origin, key, value⟩ ∧
        ∀ after, read origin (before ++ "\n" ++ line ++ "\n" ++ after) =
          (assignments origin ("[interpreter]\n" ++ after)).foldl Reading.push
            ((read origin before).push ⟨origin, key, value⟩)) ∧
    ∀ (s : Settings) (written : List (Key × String)) (header : String) (rest : List String),
      written.Perm s.entries → WritesHeader header →
      List.Forall₂ (fun entry line => Writes entry.1 entry.2 line) written rest →
      ∀ last ∈ ["", "\n"],
        read origin ("\n".intercalate (header :: rest) ++ last) =
          { settings := s, ignored := #[] } := by
  constructor
  · intro key value line before hline hbefore
    have hread : read origin (before ++ "\n" ++ line) =
        (read origin before).push ⟨origin, key, value⟩ := by
      rw [read, assignments_append_writes hbefore hline, Reading.ofAssignments_concat]
      rfl
    refine ⟨hread, ?_⟩
    intro after
    rw [← hread, read, assignments_append_writes_append hbefore hline,
      Reading.ofAssignments, List.foldl_append]
    rfl
  · intro s written header rest hwritten hheader hrest last hlast
    rw [read, assignments_written hheader hrest hlast, ofAssignments_entries hwritten]

/-- A value with blanks, a number sign and an equals sign between its quotes, and a bare one that is
as large as a tape length can be, with an odd number of quotes in the comment behind it. -/
theorem layout_does_not_matter_hard_values :
    let strange := "\taddressing\t=\u00a0\" a=#]\" # \"b\""
    let large := "tape_length=18446744073709551615 #\" x"
    let settings : Settings := { tapeLength := some ⟨2 ^ 64 - 1, by decide, by decide⟩ }
    read "f" ("[interpreter]\neof = max" ++ "\n" ++ strange) =
        (read "f" "[interpreter]\neof = max").push ⟨"f", .addressing, " a=#]"⟩ ∧
      read "f" ("[ \tinterpreter ]\n" ++ large ++ "\n") = { settings, ignored := #[] } := by
  intro strange large settings
  have hstrange : Writes .addressing " a=#]" strange :=
    ⟨['\t'], ['\u00a0'], "\" a=#]\"".toList, by decide, by decide, .quoted (by decide), by decide,
      ['\t'], [' '], '#' :: " \"b\"".toList, by decide, by decide, .inr ⟨_, rfl⟩, by decide⟩
  have hinside : InSection (lines "[interpreter]\neof = max".toList) :=
    (inside_scan_iff "f" _).1 (by decide +kernel)
  have hheader : WritesHeader "[ \tinterpreter ]" :=
    ⟨[' ', '\t'], [' '], by decide, by decide, by decide,
      [], [], [], by decide, by decide, .inl rfl, by decide⟩
  have hlarge : Writes .tapeLength "18446744073709551615" large :=
    ⟨[], [], "18446744073709551615".toList, by decide, by decide,
      .bare (by decide) (by decide) (by decide), by decide,
      [], [' '], '#' :: "\" x".toList, by decide, by decide, .inr ⟨_, rfl⟩, by decide⟩
  obtain ⟨hline, hfile⟩ := layout_does_not_matter "f"
  refine ⟨(hline _ _ _ _ hstrange hinside).1, ?_⟩
  have hentries : [(Key.tapeLength, "18446744073709551615")].Perm settings.entries := by
    decide +kernel
  exact hfile settings _ _ _ hentries hheader (.cons hlarge .nil) "\n" (by simp)

end File

end Settings

end TapeMachine
