import TapeMachine.Proofs.Lines
import TapeMachine.Proofs.SettingsFile
import TapeMachine.Proofs.SettingsLayers
import TapeMachine.Proofs.Trimming

/-!
# Settings files one behind another

If one settings file is written below another one, its assignments follow those of the first, unless
it begins in the middle of a section.  However the first file ends, the newline between them keeps
their lines apart: neither a comment nor a quote reaches over it, and a carriage return in front of
it is a blank at the end of its line.  So the two files are laid one over another like two layers.
-/

namespace TapeMachine

namespace Reading

theorem settings_ofAssignments_append (as bs : List Assignment) :
    (ofAssignments (as ++ bs)).settings =
      (ofAssignments as).settings.overlay (ofAssignments bs).settings := by
  induction bs using List.reverseRecOn with
  | nil => rw [List.append_nil, ofAssignments, ofAssignments, List.foldl_nil, Settings.overlay_empty]
  | append_singleton bs b ih =>
      rw [← List.append_assoc, ofAssignments_concat, ofAssignments_concat, settings_push,
        settings_push, ih, Settings.overlay_assoc]

end Reading

namespace Settings.File

open Text

/-! ## Blanks at the end of a line -/

/-- Quotes aside, whatever stands in front of the comment is kept; number signs are, if a quote is
open. -/
theorem stripCommentFrom_append {quoted : Bool} {text : List Char}
    (h : ∀ c ∈ text, (c = '#' → quoted) ∧ c ≠ '"') (kept rest : List Char) :
    stripCommentFrom quoted kept (text ++ rest) =
      stripCommentFrom quoted (text.reverse ++ kept) rest := by
  induction text generalizing kept with
  | nil => rfl
  | cons c text ih =>
      obtain ⟨hsign, hquote⟩ := h c (by simp)
      have hstop : ¬ (c = '#' && !quoted) = true := by simpa using hsign
      rw [List.cons_append, stripCommentFrom, if_neg hstop, if_neg hquote,
        ih fun d hd => h d (by simp [hd]), List.reverse_cons, List.append_assoc]
      rfl

theorem stripCommentFrom_append_of_blank {blanks : List Char} (h : Blank blanks) (quoted : Bool)
    (kept rest : List Char) :
    stripCommentFrom quoted kept (blanks ++ rest) =
      stripCommentFrom quoted (blanks.reverse ++ kept) rest := by
  apply stripCommentFrom_append
  intro c hc
  constructor
  · rintro rfl
    exact absurd (h _ hc) (by decide)
  · rintro rfl
    exact absurd (h _ hc) (by decide)

theorem trim_stripCommentFrom_append_blank {blanks : List Char} (h : Blank blanks) (quoted : Bool)
    (kept text : List Char) :
    trim (stripCommentFrom quoted kept (text ++ blanks)) =
      trim (stripCommentFrom quoted kept text) := by
  induction text generalizing quoted kept with
  | nil =>
      have hkept := stripCommentFrom_append_of_blank h quoted kept []
      rw [List.append_nil] at hkept
      rw [List.nil_append, hkept, stripCommentFrom, stripCommentFrom, List.reverse_append,
        List.reverse_reverse, trim_append_blank h]
  | cons c text ih =>
      rw [List.cons_append, stripCommentFrom, stripCommentFrom]
      split
      · rfl
      · exact ih _ _

theorem ofText_dropReturn (line : List Char) :
    Line.ofText (dropReturn line) = Line.ofText line := by
  obtain ⟨returns, hreturns, hline⟩ := exists_returns line
  have hblank : Blank returns := by
    intro c hc
    rw [hreturns c hc]
    decide
  conv_rhs => rw [hline]
  rw [Line.ofText, Line.ofText, stripComment, stripComment,
    trim_stripCommentFrom_append_blank hblank]

/-! ## The scan of a text -/

/-- The scan of the lines of a text, begun with what was found before. -/
def scanText (origin : String) (before : Scan) (text : List Char) : Scan :=
  ((lines text).map Line.ofText).foldl (Scan.push origin) before

theorem assignments_eq (origin content : String) :
    assignments origin content = (scanText origin {} content.toList).found.toList := rfl

@[simp] theorem push_other (origin : String) (s : Scan) : s.push origin .other = s := by
  obtain ⟨_ | _, found⟩ := s <;> rfl

/-- Whether the pieces of a text or its lines are scanned makes no difference. -/
theorem foldl_push_linesOfPieces (origin : String) (s : Scan) (first : List Char)
    (rest : List (List Char)) :
    ((linesOfPieces first rest).map Line.ofText).foldl (Scan.push origin) s =
      ((first :: rest).map Line.ofText).foldl (Scan.push origin) s := by
  induction rest generalizing first s with
  | nil =>
      rw [linesOfPieces]
      split
      · next hempty =>
          obtain rfl := List.isEmpty_iff.1 hempty
          exact (push_other origin s).symm
      · rfl
  | cons next rest ih =>
      rw [linesOfPieces, List.map_cons, List.foldl_cons, ih, ofText_dropReturn]
      rfl

theorem scanText_eq (origin : String) (s : Scan) (text : List Char) :
    scanText origin s text = ((allPieces text).map Line.ofText).foldl (Scan.push origin) s :=
  foldl_push_linesOfPieces origin s _ _

theorem scanText_append_newline (origin : String) (s : Scan) (a b : List Char) :
    scanText origin s (a ++ '\n' :: b) = scanText origin (scanText origin s a) b := by
  simp only [scanText_eq, allPieces_append_newline, List.map_append, List.foldl_append]

theorem inside_push_congr (origin : String) (line : Line) {s s' : Scan}
    (h : s.inside = s'.inside) : (s.push origin line).inside = (s'.push origin line).inside := by
  obtain ⟨inside, found⟩ := s
  obtain ⟨inside', found'⟩ := s'
  obtain rfl : inside = inside' := h
  cases inside with
  | false => cases line <;> rfl
  | true =>
      cases line with
      | header | other => rfl
      | assignment name text =>
          simp only [Scan.push]
          cases Key.ofName? (String.ofList name) <;> rfl

/-- What a scan finds is added to what was found before, and depends only on whether it begins in
the section of the settings. -/
theorem toList_found_foldl (origin : String) (s : Scan) (ls : List Line) :
    (ls.foldl (Scan.push origin) s).found.toList =
      s.found.toList ++ (ls.foldl (Scan.push origin) { inside := s.inside }).found.toList := by
  induction ls generalizing s with
  | nil => simp
  | cons line ls ih =>
      have hinside : (s.push origin line).inside =
          (({ inside := s.inside } : Scan).push origin line).inside :=
        inside_push_congr origin line rfl
      rw [List.foldl_cons, List.foldl_cons, ih, ih (Scan.push origin { inside := s.inside } line),
        toList_found_push, toList_found_push, hinside, List.append_assoc]
      rfl

theorem toList_found_scanText (origin : String) (s : Scan) (text : List Char) :
    (scanText origin s text).found.toList =
      s.found.toList ++ (scanText origin { inside := s.inside } text).found.toList :=
  toList_found_foldl origin s _

/-! ## Files that begin with a header -/

/-- The first line that says anything is the header of a section. -/
def OpensWithHeader (content : String) : Prop :=
  ∀ line, (lines content.toList).find? (fun line => payload line ≠ []) = some line →
    ∃ name, IsHeader line name

theorem ofText_eq_other {line : List Char} (h : payload line = []) :
    Line.ofText line = .other := by
  rw [Line.ofText, trim_stripComment, h]
  rfl

/-- Lines that begin with a header are scanned alike in every section. -/
theorem foldl_push_of_header {ls : List (List Char)}
    (h : ∀ line, ls.find? (fun line => payload line ≠ []) = some line → ∃ name, IsHeader line name)
    (origin : String) (inside : Bool) :
    ((ls.map Line.ofText).foldl (Scan.push origin) { inside }).found =
      ((ls.map Line.ofText).foldl (Scan.push origin) {}).found := by
  induction ls with
  | nil => rfl
  | cons line ls ih =>
      rw [List.map_cons, List.foldl_cons, List.foldl_cons]
      by_cases hline : payload line = []
      · rw [ofText_eq_other hline, push_other, push_other]
        apply ih
        intro line' hline'
        apply h
        rw [List.find?_cons_of_neg (by simpa using hline), hline']
      · obtain ⟨name, hname⟩ := h line (List.find?_cons_of_pos (by simpa using hline))
        rw [ofText_eq_header_iff.2 hname]
        rfl

theorem assignments_append_newline (origin : String) {a b : String} (hb : OpensWithHeader b) :
    assignments origin (a ++ "\n" ++ b) = assignments origin a ++ assignments origin b := by
  have htext : (a ++ "\n" ++ b).toList = a.toList ++ '\n' :: b.toList := by simp
  rw [assignments_eq, assignments_eq, assignments_eq, htext, scanText_append_newline,
    toList_found_scanText]
  congr 2
  exact foldl_push_of_header hb origin _

/-- A settings file with another one below it reads like the second laid over the first, and it
leads to the warnings of the first and then to those of the second, provided that the second does not
go on with the section in which the first ends. -/
theorem read_below_another (origin : String) {a b : String} (hb : OpensWithHeader b) :
    (read origin (a ++ "\n" ++ b)).settings =
        (read origin a).settings.overlay (read origin b).settings ∧
      LogEvent.ofReading (read origin (a ++ "\n" ++ b)) =
        LogEvent.ofReading (read origin a) ++ LogEvent.ofReading (read origin b) := by
  have hassignments := assignments_append_newline origin (a := a) hb
  constructor
  · rw [read, hassignments, Reading.settings_ofAssignments_append]
    rfl
  · rw [LogEvent.ofReading, LogEvent.ofReading, LogEvent.ofReading, read, hassignments,
      Reading.toList_ignored_ofAssignments, List.filterMap_append,
      ← Reading.toList_ignored_ofAssignments, ← Reading.toList_ignored_ofAssignments,
      List.map_append]
    rfl

/-- The first file ends in a quote that is still open, with a carriage return behind it. -/
theorem read_below_another_open_quote :
    let a := "[interpreter]\neof = max\ntape_length = \"5 # cells\r"
    let b := "# more\n[interpreter]\ntape_length = 7"
    OpensWithHeader b ∧
      (read "f" (a ++ "\n" ++ b)).settings =
        { tapeLength := some ⟨7, by decide, by decide⟩, eof := some .max } ∧
      LogEvent.ofReading (read "f" (a ++ "\n" ++ b)) =
        [.settingIgnored ⟨⟨"f", .tapeLength, "\"5 # cells"⟩, .cellCount .invalidDigit⟩] := by
  intro a b
  have hfirst : (lines b.toList).find? (fun line => payload line ≠ []) =
      some "[interpreter]".toList := by
    decide +kernel
  have hb : OpensWithHeader b := by
    intro line hline
    obtain rfl := Option.some.inj (hfirst.symm.trans hline)
    exact ⟨"interpreter".toList, "interpreter".toList, by decide, by decide⟩
  obtain ⟨hsettings, hwarnings⟩ := read_below_another "f" (a := a) hb
  refine ⟨hb, hsettings.trans ?_, hwarnings.trans ?_⟩
  · decide +kernel
  · decide +kernel

end Settings.File

end TapeMachine
