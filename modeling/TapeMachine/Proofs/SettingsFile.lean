import Mathlib.Data.List.Induction
import TapeMachine.Log
import TapeMachine.Proofs.SettingsLine
import TapeMachine.Proofs.SettingsReading

/-!
# What a settings file means

Among the lines of a file some assign a value to a key.  The file gives each parameter the value of
the last line that assigns a valid one to it, and complains once about each line that assigns an
invalid one.  `Listing` says that a list goes through the lines at which something holds; the scan
of the file makes such a list of its assignments.
-/

namespace TapeMachine

namespace Settings.File

/-- Behind these lines one is in the section of the settings: it has a header among them, and there
is no further header behind that. -/
def InSection (before : List (List Char)) : Prop :=
  ∃ front header between, before = front ++ header :: between ∧
    IsHeader header "interpreter".toList ∧ ∀ line ∈ between, ∀ name, ¬ IsHeader line name

/-- The line number `k`, counted from zero, assigns `value` to `key`. -/
def Assigns (lines : List (List Char)) (k : Nat) (key : Key) (value : String) : Prop :=
  ∃ line name text, lines[k]? = some line ∧ InSection (lines.take k) ∧
    IsAssignment line name text ∧ String.ofList name = key.name ∧ String.ofList text = value

/-- What is given last, if anything is given at all. -/
def LastGiven {α : Type} (gives : Nat → α → Prop) : Option α → Prop
  | some value => ∃ k, gives k value ∧
      ∀ k' value', gives k' value' → k' < k ∨ k' = k ∧ value' = value
  | none => ∀ k value, ¬ gives k value

/-- All that holds at any line, by ascending lines. -/
structure Listing {α : Type} (holds : Nat → α → Prop) (placed : List (Nat × α)) : Prop where
  ascending : placed.Pairwise fun x y => x.1 < y.1
  mem_iff : ∀ {k a}, (k, a) ∈ placed ↔ holds k a

/-- What a text means as a settings file.  Every parameter has the value given to it by the last
line that assigns a valid one, and is open if there is no such line; `circular` and `addressing` are
two ways to give the addressing.  The complaints are about the lines that assign an invalid
value. -/
structure Means (origin content : String) (settings : Settings)
    (complaints : List (Nat × IgnoredAssignment)) : Prop where
  tapeLength : LastGiven (fun k count => ∃ value,
    Assigns (Text.lines content.toList) k .tapeLength value ∧ CellCount.parse value = .ok count)
    settings.tapeLength
  addressing : LastGiven (fun k mode =>
    (∃ value, Assigns (Text.lines content.toList) k .circular value ∧
      parseBool value = .ok (mode = .circular)) ∨
    ∃ value, Assigns (Text.lines content.toList) k .addressing value ∧
      Addressing.parse value = .ok mode)
    settings.addressing
  eof : LastGiven (fun k policy => ∃ value,
    Assigns (Text.lines content.toList) k .eof value ∧ EofPolicy.parse value = .ok policy)
    settings.eof
  complaints : Listing (fun k i => i.assignment.origin = origin ∧
    Assigns (Text.lines content.toList) k i.assignment.key i.assignment.value ∧
      i.assignment.key.Rejects i.assignment.value i.reason) complaints

/-! ## Lists of what holds at lines -/

section Listing

variable {α β : Type} {holds : Nat → α → Prop} {placed : List (Nat × α)}

theorem Listing.concat (h : Listing holds placed) {holds' : Nat → α → Prop} {n : Nat}
    {last : Option α} (hlt : ∀ k a, holds k a → k < n)
    (hiff : ∀ k a, holds' k a ↔ holds k a ∨ k = n ∧ last = some a) :
    Listing holds' (placed ++ last.toList.map (n, ·)) where
  ascending := by
    refine List.pairwise_append.2 ⟨h.ascending, ?_, ?_⟩
    · cases last <;> simp
    · intro x hx y hy
      obtain ⟨-, -, rfl⟩ := List.mem_map.1 hy
      exact hlt x.1 x.2 (h.mem_iff.1 hx)
  mem_iff := by
    intro k a
    rw [List.mem_append, h.mem_iff, hiff]
    cases last <;> simp [eq_comm]

theorem Listing.congr {holds' : Nat → α → Prop} (h : Listing holds placed)
    (hiff : ∀ k a, holds k a ↔ holds' k a) : Listing holds' placed where
  ascending := h.ascending
  mem_iff := h.mem_iff.trans (hiff _ _)

theorem Listing.filterMap (h : Listing holds placed) (f : α → Option β) :
    ∃ placed', Listing (fun k b => ∃ a, holds k a ∧ f a = some b) placed' ∧
      placed'.map Prod.snd = (placed.map Prod.snd).filterMap f := by
  refine ⟨placed.filterMap fun x => (f x.2).map (x.1, ·), ⟨?_, ?_⟩, ?_⟩
  · apply h.ascending.filterMap
    intro x y hlt x' hx y' hy
    obtain ⟨-, -, rfl⟩ := Option.map_eq_some_iff.1 hx
    obtain ⟨-, -, rfl⟩ := Option.map_eq_some_iff.1 hy
    exact hlt
  · intro k b
    rw [List.mem_filterMap]
    constructor
    · rintro ⟨⟨k, a⟩, hmem, hx⟩
      obtain ⟨b, hb, hkb⟩ := Option.map_eq_some_iff.1 hx
      obtain ⟨rfl, rfl⟩ := Prod.mk.inj hkb
      exact ⟨a, h.mem_iff.1 hmem, hb⟩
    · rintro ⟨a, ha, hb⟩
      exact ⟨(k, a), h.mem_iff.2 ha, by rw [hb, Option.map_some]⟩
  · rw [List.map_filterMap, List.filterMap_map]
    congr
    funext x
    cases hx : f x.2 <;> simp [hx]

/-- The last one in a list of all is what is given last. -/
theorem Listing.lastGiven (h : Listing holds placed) :
    LastGiven holds (placed.map Prod.snd).getLast? := by
  rcases List.eq_nil_or_concat placed with rfl | ⟨front, ⟨k, a⟩, rfl⟩
  · intro k a ha
    cases h.mem_iff.2 ha
  · rw [List.concat_eq_append] at h
    rw [List.concat_eq_append, List.map_append, List.map_singleton, List.getLast?_concat]
    refine ⟨k, h.mem_iff.1 (by simp), ?_⟩
    intro k' a' ha'
    rcases List.mem_append.1 (h.mem_iff.2 ha') with hfront | hlast
    · have hlt := (List.pairwise_append.1 h.ascending).2.2 _ hfront (k, a) (by simp)
      exact .inl hlt
    · exact .inr (Prod.mk.inj (List.mem_singleton.1 hlast))

end Listing

/-! ## The assignments of a file -/

theorem inSection_concat {before : List (List Char)} {line : List Char} :
    InSection (before ++ [line]) ↔
      IsHeader line "interpreter".toList ∨ (∀ name, ¬ IsHeader line name) ∧ InSection before := by
  constructor
  · rintro ⟨front, header, between, hsplit, hheader, hbetween⟩
    rcases List.eq_nil_or_concat between with rfl | ⟨between, last, rfl⟩
    · obtain ⟨-, hlast⟩ := List.append_inj' hsplit rfl
      obtain rfl := List.singleton_inj.1 hlast
      exact .inl hheader
    · rw [List.concat_eq_append] at hsplit hbetween
      rw [← List.cons_append, ← List.append_assoc] at hsplit
      obtain ⟨rfl, hlast⟩ := List.append_inj' hsplit rfl
      obtain rfl := List.singleton_inj.1 hlast
      refine .inr ⟨hbetween _ (by simp), front, header, between, rfl, hheader, ?_⟩
      intro line hline
      exact hbetween line (List.mem_append_left _ hline)
  · rintro (hheader | ⟨hplain, front, header, between, rfl, hheader, hbetween⟩)
    · exact ⟨before, line, [], rfl, hheader, by simp⟩
    · refine ⟨front, header, between ++ [line], by simp, hheader, ?_⟩
      intro line' hline'
      rcases List.mem_append.1 hline' with hmem | hmem
      · exact hbetween line' hmem
      · obtain rfl := List.mem_singleton.1 hmem
        exact hplain

section Assigns

variable {lines : List (List Char)} {line : List Char} {k : Nat} {key : Key} {value : String}

theorem Assigns.lt_length (h : Assigns lines k key value) : k < lines.length := by
  obtain ⟨line, -, -, hline, -⟩ := h
  exact (List.getElem?_eq_some_iff.1 hline).1

/-- The lines up to one decide what it assigns. -/
theorem assigns_concat :
    Assigns (lines ++ [line]) k key value ↔
      Assigns lines k key value ∨ k = lines.length ∧ InSection lines ∧
        ∃ name text, IsAssignment line name text ∧ String.ofList name = key.name ∧
          String.ofList text = value := by
  rcases Nat.lt_trichotomy k lines.length with hlt | rfl | hgt
  · rw [Assigns, Assigns, List.getElem?_append_left hlt, List.take_append_of_le_length hlt.le]
    simp [Nat.ne_of_lt hlt]
  · simp [Assigns]
  · have hnone : (lines ++ [line])[k]? = none := by
      rw [List.getElem?_eq_none_iff, List.length_append, List.length_singleton]
      omega
    have hnone' : lines[k]? = none := List.getElem?_eq_none hgt.le
    simp [Assigns, hnone, hnone', hgt.ne']

end Assigns

/-- The assignment that a line is when it lies in the section of the settings. -/
def Line.assignment? (origin : String) : Line → Option Assignment
  | .assignment name text =>
      (Key.ofName? (String.ofList name)).map (⟨origin, ·, String.ofList text⟩)
  | _ => none

theorem assignment?_ofText_eq_some_iff {origin : String} {line : List Char} {a : Assignment} :
    (Line.ofText line).assignment? origin = some a ↔
      a.origin = origin ∧ ∃ name text, IsAssignment line name text ∧
        String.ofList name = a.key.name ∧ String.ofList text = a.value := by
  constructor
  · intro h
    unfold Line.assignment? at h
    split at h
    · next name text hline =>
        obtain ⟨key, hkey, rfl⟩ := Option.map_eq_some_iff.1 h
        have hname := Key.ofName?_eq_some_iff.1 hkey
        exact ⟨rfl, name, text, ofText_eq_assignment_iff.1 hline, hname, rfl⟩
    · contradiction
  · obtain ⟨origin', key, value⟩ := a
    rintro ⟨rfl, name, text, hline, hname, rfl⟩
    rw [ofText_eq_assignment_iff.2 hline, Line.assignment?, Key.ofName?_eq_some_iff.2 hname]
    rfl

/-- What a line adds to the assignments found. -/
def Scan.next? (origin : String) (scan : Scan) (line : Line) : Option Assignment :=
  if scan.inside then line.assignment? origin else none

theorem next?_ofText_eq_some_iff {origin : String} {scan : Scan} {line : List Char}
    {a : Assignment} :
    scan.next? origin (Line.ofText line) = some a ↔
      scan.inside = true ∧ a.origin = origin ∧ ∃ name text, IsAssignment line name text ∧
        String.ofList name = a.key.name ∧ String.ofList text = a.value := by
  rw [Scan.next?, ← assignment?_ofText_eq_some_iff]
  split
  · next hinside => simp [hinside]
  · next hinside => simp [hinside]

theorem toList_found_push (origin : String) (scan : Scan) (line : Line) :
    (scan.push origin line).found.toList =
      scan.found.toList ++ (scan.next? origin line).toList := by
  obtain ⟨_ | _, found⟩ := scan
  · cases line <;> simp [Scan.push, Scan.next?]
  · cases line with
    | header => simp [Scan.push, Scan.next?, Line.assignment?]
    | other => simp [Scan.push, Scan.next?, Line.assignment?]
    | assignment name text =>
        simp only [Scan.push, Scan.next?, Line.assignment?]
        cases Key.ofName? (String.ofList name) <;> simp

theorem inside_push (origin : String) (scan : Scan) (line : List Char) :
    (scan.push origin (Line.ofText line)).inside = true ↔
      IsHeader line "interpreter".toList ∨ (∀ name, ¬ IsHeader line name) ∧ scan.inside = true := by
  change _ ↔ IsHeader line sectionName ∨ _
  simp only [← ofText_eq_header_iff]
  obtain ⟨_ | _, found⟩ := scan
  · cases Line.ofText line <;> simp [Scan.push]
  · cases Line.ofText line with
    | header name => simp [Scan.push]
    | other => simp [Scan.push]
    | assignment name text =>
        simp only [Scan.push]
        cases Key.ofName? (String.ofList name) <;> simp

def scan (origin : String) (lines : List (List Char)) : Scan :=
  (lines.map Line.ofText).foldl (Scan.push origin) {}

theorem scan_concat (origin : String) (lines : List (List Char)) (line : List Char) :
    scan origin (lines ++ [line]) = (scan origin lines).push origin (Line.ofText line) := by
  simp [scan]

theorem inside_scan_iff (origin : String) (lines : List (List Char)) :
    (scan origin lines).inside = true ↔ InSection lines := by
  induction lines using List.reverseRecOn with
  | nil =>
      constructor
      · intro h
        contradiction
      · rintro ⟨front, header, between, hsplit, -⟩
        simp at hsplit
  | append_singleton lines line ih => rw [scan_concat, inside_push, inSection_concat, ih]

theorem exists_listing_scan (origin : String) (lines : List (List Char)) :
    ∃ placed, Listing (fun k a => a.origin = origin ∧ Assigns lines k a.key a.value) placed ∧
      placed.map Prod.snd = (scan origin lines).found.toList := by
  induction lines using List.reverseRecOn with
  | nil =>
      refine ⟨[], ⟨List.Pairwise.nil, ?_⟩, rfl⟩
      intro k a
      simp [Assigns]
  | append_singleton lines line ih =>
      obtain ⟨placed, hplaced, hfound⟩ := ih
      refine ⟨placed ++ ((scan origin lines).next? origin (Line.ofText line)).toList.map
        (lines.length, ·), hplaced.concat ?_ ?_, ?_⟩
      · rintro k a ⟨-, ha⟩
        exact ha.lt_length
      · intro k a
        rw [assigns_concat, next?_ofText_eq_some_iff, inside_scan_iff, and_or_left]
        exact or_congr_right (and_left_comm.trans (and_congr_right fun _ => and_left_comm))
      · rw [scan_concat, toList_found_push, List.map_append, hfound]
        cases (scan origin lines).next? origin (Line.ofText line) <;> rfl

/-! ## What the assignments of a file come to -/

theorem exists_listing_assignments (origin content : String) :
    ∃ placed, Listing (fun k a => a.origin = origin ∧
        Assigns (Text.lines content.toList) k a.key a.value) placed ∧
      placed.map Prod.snd = assignments origin content :=
  exists_listing_scan origin (Text.lines content.toList)

/-- The assignments ignored are those with an invalid value, by ascending lines. -/
theorem exists_listing_ignored (origin content : String) :
    ∃ complaints, Listing (fun k i => i.assignment.origin = origin ∧
        Assigns (Text.lines content.toList) k i.assignment.key i.assignment.value ∧
          i.assignment.key.Rejects i.assignment.value i.reason) complaints ∧
      complaints.map Prod.snd = (read origin content).ignored.toList := by
  obtain ⟨placed, hplaced, hassignments⟩ := exists_listing_assignments origin content
  obtain ⟨complaints, hcomplaints, hmap⟩ := hplaced.filterMap Assignment.ignored?
  refine ⟨complaints, hcomplaints.congr ?_, ?_⟩
  · intro k i
    simp only [Assignment.ignored?_eq_some_iff]
    constructor
    · rintro ⟨a, ⟨horigin, hassigns⟩, rfl, hrejects⟩
      exact ⟨horigin, hassigns, hrejects⟩
    · rintro ⟨horigin, hassigns, hrejects⟩
      exact ⟨i.assignment, ⟨horigin, hassigns⟩, rfl, hrejects⟩
  · rw [read, Reading.toList_ignored_ofAssignments, ← hassignments, hmap]

theorem LastGiven.congr {α : Type} {gives gives' : Nat → α → Prop} {last : Option α}
    (h : LastGiven gives last) (hiff : ∀ k value, gives k value ↔ gives' k value) :
    LastGiven gives' last := by
  have hsame : gives = gives' := by
    funext k value
    exact propext (hiff k value)
  exact hsame ▸ h

/-- A parameter has in the end the value that a line gives it last. -/
theorem lastGiven_read {α : Type} {origin content : String} {field : Settings → Option α}
    (gives : Key → String → α → Prop) (hopen : field {} = none)
    (hoverlay : ∀ lower upper, field (lower.overlay upper) = (field upper).or (field lower))
    (hgives : ∀ a value, field (Assignment.said a) = some value ↔ gives a.key a.value value) :
    LastGiven (fun k value => ∃ key text,
      Assigns (Text.lines content.toList) k key text ∧ gives key text value)
      (field (read origin content).settings) := by
  obtain ⟨placed, hplaced, hassignments⟩ := exists_listing_assignments origin content
  obtain ⟨placed', hplaced', hmap⟩ := hplaced.filterMap fun a => field a.said
  rw [read, Reading.ofAssignments_getLast? hopen hoverlay, ← hassignments, ← hmap]
  apply hplaced'.lastGiven.congr
  intro k value
  constructor
  · rintro ⟨a, ⟨-, hassigns⟩, hvalue⟩
    exact ⟨a.key, a.value, hassigns, (hgives a value).1 hvalue⟩
  · rintro ⟨key, text, hassigns, hvalue⟩
    exact ⟨⟨origin, key, text⟩, ⟨rfl, hassigns⟩, (hgives _ value).2 hvalue⟩

theorem render_settingIgnored (i : IgnoredAssignment) :
    (LogEvent.settingIgnored i).render =
      "WARN " ++ (i.assignment.origin ++ ": invalid value for '" ++ i.assignment.key.name ++
        "': " ++ Text.quote i.assignment.value ++ " (" ++ i.reason.message ++ "); ignoring") := by
  have hmessage : i.message = i.assignment.origin ++ ": invalid value for '" ++
      i.assignment.key.name ++ "': " ++ Text.quote i.assignment.value ++ " (" ++
        i.reason.message ++ "); ignoring" := by
    unfold IgnoredAssignment.message
    rfl
  rw [← hmessage]
  unfold LogEvent.render LogEvent.isWarning LogEvent.message
  rw [if_pos rfl]

/-- A parameter that has a key of its own. -/
theorem lastGiven_read_of_key {α ε : Type} {origin content : String}
    {field : Settings → Option α} (key : Key) (parse : String → Except ε α)
    (hopen : field {} = none)
    (hoverlay : ∀ lower upper, field (lower.overlay upper) = (field upper).or (field lower))
    (hgives : ∀ a value, field (Assignment.said a) = some value ↔
      a.key = key ∧ parse a.value = .ok value) :
    LastGiven (fun k value => ∃ text,
      Assigns (Text.lines content.toList) k key text ∧ parse text = .ok value)
      (field (read origin content).settings) := by
  apply (lastGiven_read (fun key' text value => key' = key ∧ parse text = .ok value)
    hopen hoverlay hgives).congr
  intro k value
  constructor
  · rintro ⟨_, text, hassigns, rfl, hvalue⟩
    exact ⟨text, hassigns, hvalue⟩
  · rintro ⟨text, hassigns, hvalue⟩
    exact ⟨key, text, hassigns, rfl, hvalue⟩

theorem exists_means_read (origin content : String) :
    ∃ complaints, Means origin content (read origin content).settings complaints ∧
      complaints.map Prod.snd = (read origin content).ignored.toList := by
  obtain ⟨complaints, hcomplaints, hmap⟩ := exists_listing_ignored origin content
  refine ⟨complaints, ⟨?_, ?_, ?_, hcomplaints⟩, hmap⟩
  · exact lastGiven_read_of_key .tapeLength CellCount.parse rfl (fun _ _ => rfl)
      fun a => (Assignment.said_iff a).1
  · apply (lastGiven_read
      (fun key value mode => (key = .circular ∧ parseBool value = .ok (mode = .circular)) ∨
        (key = .addressing ∧ Addressing.parse value = .ok mode))
      rfl (fun _ _ => rfl) fun a => (Assignment.said_iff a).2.1).congr
    intro k mode
    constructor
    · rintro ⟨-, value, hassigns, ⟨rfl, hvalue⟩ | ⟨rfl, hvalue⟩⟩
      · exact .inl ⟨value, hassigns, hvalue⟩
      · exact .inr ⟨value, hassigns, hvalue⟩
    · rintro (⟨value, hassigns, hvalue⟩ | ⟨value, hassigns, hvalue⟩)
      · exact ⟨_, value, hassigns, .inl ⟨rfl, hvalue⟩⟩
      · exact ⟨_, value, hassigns, .inr ⟨rfl, hvalue⟩⟩
  · exact lastGiven_read_of_key .eof EofPolicy.parse rfl (fun _ _ => rfl)
      fun a => (Assignment.said_iff a).2.2

theorem ofReading_read {origin content : String} {complaints : List (Nat × IgnoredAssignment)}
    (h : complaints.map Prod.snd = (read origin content).ignored.toList) :
    LogEvent.ofReading (read origin content) = complaints.map fun x => .settingIgnored x.2 := by
  rw [LogEvent.ofReading, ← h, List.map_map]
  rfl

/-- Reading a settings file gives what the file means, line by line.  Every line that assigns an
invalid value leads to one warning, in the order of the lines, which names the file, the key, the
value and the reason, and nothing else leads to a warning. -/
theorem read_meaning (origin content : String) :
    ∃ complaints, Means origin content (read origin content).settings complaints ∧
      LogEvent.ofReading (read origin content) =
        complaints.map (fun x => .settingIgnored x.2) ∧
      ∀ x ∈ complaints, (LogEvent.settingIgnored x.2).render =
        "WARN " ++ (origin ++ ": invalid value for '" ++ x.2.assignment.key.name ++ "': " ++
          Text.quote x.2.assignment.value ++ " (" ++ x.2.reason.message ++ "); ignoring") := by
  obtain ⟨complaints, hmeans, hmap⟩ := exists_means_read origin content
  refine ⟨complaints, hmeans, ofReading_read hmap, ?_⟩
  rintro ⟨k, i⟩ hmem
  obtain ⟨rfl, -⟩ := hmeans.complaints.mem_iff.1 hmem
  exact render_settingIgnored i

example : (read "f" "[interpreter]\ncircular = on\naddressing = \"x#\" # y\n").settings.addressing =
    some .circular := by
  decide +kernel

end Settings.File

end TapeMachine
