import Mathlib.Data.List.Induction
import TapeMachine.Settings.Layer

/-!
# What assignments come to

An assignment by itself either makes settings in which one parameter is fixed, or has a value that
its key rejects.  A list of assignments comes to the settings that each of them makes, laid one over
another; so each parameter has the value that an assignment gave it last, and the rejected values
are remembered in their order.
-/

namespace TapeMachine

theorem Key.ofName?_eq_some_iff {name : String} {key : Key} :
    Key.ofName? name = some key ↔ name = key.name := by
  constructor
  · intro h
    unfold Key.ofName? at h
    split at h <;> simp_all [Key.name] <;> subst h <;> rfl
  · rintro rfl
    exact Key.ofName?_name key

/-- The value is not valid for the key. -/
def Key.Rejects : Key → String → ValueError → Prop
  | .tapeLength, value, reason => ∃ e, CellCount.parse value = .error e ∧ reason = .cellCount e
  | .circular, value, reason => parseBool value = .error reason
  | .addressing, value, reason => Addressing.parse value = .error reason
  | .eof, value, reason => EofPolicy.parse value = .error reason

/-- The settings that an assignment makes when it is the only one. -/
def Assignment.said (a : Assignment) : Settings :=
  (({} : Settings).assign a.key a.value).toOption.getD {}

/-- The complaint about an assignment whose value is not valid. -/
def Assignment.ignored? (a : Assignment) : Option IgnoredAssignment :=
  match ({} : Settings).assign a.key a.value with
  | .ok _ => none
  | .error reason => some ⟨a, reason⟩

namespace Settings

variable (s : Settings) (value : String)

theorem assign_tapeLength :
    s.assign .tapeLength value =
      ((CellCount.parse value).mapError .cellCount).map fun count =>
        { s with tapeLength := some count } := by
  rw [assign]
  cases CellCount.parse value <;> rfl

theorem assign_circular :
    s.assign .circular value =
      (parseBool value).map fun circular =>
        { s with addressing := some (if circular then .circular else .bounded) } := by
  rw [assign]
  cases parseBool value <;> rfl

theorem assign_addressing :
    s.assign .addressing value =
      (Addressing.parse value).map fun mode => { s with addressing := some mode } := by
  rw [assign]
  cases Addressing.parse value <;> rfl

theorem assign_eof :
    s.assign .eof value =
      (EofPolicy.parse value).map fun policy => { s with eof := some policy } := by
  rw [assign]
  cases EofPolicy.parse value <;> rfl

/-- An assignment lays over what was there the settings that it makes alone. -/
theorem assign_eq_overlay (key : Key) :
    s.assign key value = (({} : Settings).assign key value).map s.overlay := by
  cases key with
  | tapeLength =>
      rw [assign_tapeLength, assign_tapeLength]
      cases CellCount.parse value <;> simp [Except.map, Except.mapError, overlay]
  | circular =>
      rw [assign_circular, assign_circular]
      cases parseBool value <;> simp [Except.map, overlay]
  | addressing =>
      rw [assign_addressing, assign_addressing]
      cases Addressing.parse value <;> simp [Except.map, overlay]
  | eof =>
      rw [assign_eof, assign_eof]
      cases EofPolicy.parse value <;> simp [Except.map, overlay]

end Settings

namespace Reading

theorem settings_push (r : Reading) (a : Assignment) :
    (r.push a).settings = r.settings.overlay a.said := by
  rw [push, Settings.assign_eq_overlay, Assignment.said]
  cases ({} : Settings).assign a.key a.value with
  | ok => rfl
  | error => simp [Except.map, Except.toOption, Settings.overlay]

theorem ignored_push (r : Reading) (a : Assignment) :
    (r.push a).ignored.toList = r.ignored.toList ++ a.ignored?.toList := by
  rw [push, Settings.assign_eq_overlay, Assignment.ignored?]
  cases ({} : Settings).assign a.key a.value with
  | ok => simp [Except.map]
  | error => simp [Except.map]

theorem ofAssignments_concat (as : List Assignment) (a : Assignment) :
    ofAssignments (as ++ [a]) = (ofAssignments as).push a := by
  simp [ofAssignments]

/-- For each parameter the last assignment that says something about it counts. -/
theorem ofAssignments_getLast? {α : Type} {field : Settings → Option α} (hopen : field {} = none)
    (hoverlay : ∀ lower upper, field (lower.overlay upper) = (field upper).or (field lower))
    (as : List Assignment) :
    field (ofAssignments as).settings = (as.filterMap fun a => field a.said).getLast? := by
  induction as using List.reverseRecOn with
  | nil => exact hopen
  | append_singleton as a ih =>
      rw [ofAssignments_concat, settings_push, hoverlay, ih, List.filterMap_append]
      cases hsaid : field a.said <;> simp [hsaid]

theorem toList_ignored_ofAssignments (as : List Assignment) :
    (ofAssignments as).ignored.toList = as.filterMap Assignment.ignored? := by
  induction as using List.reverseRecOn with
  | nil => rfl
  | append_singleton as a ih =>
      rw [ofAssignments_concat, ignored_push, ih, List.filterMap_append]
      cases ha : a.ignored? <;> simp [ha]

end Reading

namespace Assignment

variable {a : Assignment}

/-- Each key sets one parameter, and two keys set the addressing. -/
theorem said_iff (a : Assignment) :
    (∀ count, a.said.tapeLength = some count ↔
      a.key = .tapeLength ∧ CellCount.parse a.value = .ok count) ∧
    (∀ mode, a.said.addressing = some mode ↔
      (a.key = .circular ∧ parseBool a.value = .ok (mode = .circular)) ∨
        (a.key = .addressing ∧ Addressing.parse a.value = .ok mode)) ∧
    ∀ policy, a.said.eof = some policy ↔
      a.key = .eof ∧ EofPolicy.parse a.value = .ok policy := by
  obtain ⟨origin, key, value⟩ := a
  cases key with
  | tapeLength =>
      rw [said, Settings.assign_tapeLength]
      cases CellCount.parse value <;> simp [Except.map, Except.mapError, Except.toOption]
  | circular =>
      rw [said, Settings.assign_circular]
      rcases parseBool value with e | (_ | _)
      · simp [Except.map, Except.toOption]
      · refine ⟨by simp [Except.map, Except.toOption], ?_, by simp [Except.map, Except.toOption]⟩
        intro mode
        cases mode <;> simp [Except.map, Except.toOption]
      · refine ⟨by simp [Except.map, Except.toOption], ?_, by simp [Except.map, Except.toOption]⟩
        intro mode
        cases mode <;> simp [Except.map, Except.toOption]
  | addressing =>
      rw [said, Settings.assign_addressing]
      cases Addressing.parse value <;> simp [Except.map, Except.toOption]
  | eof =>
      rw [said, Settings.assign_eof]
      cases EofPolicy.parse value <;> simp [Except.map, Except.toOption]

theorem ignored?_eq_some_iff {i : IgnoredAssignment} :
    a.ignored? = some i ↔
      i.assignment = a ∧ a.key.Rejects a.value i.reason := by
  obtain ⟨origin, key, value⟩ := a
  obtain ⟨assignment, reason⟩ := i
  cases key with
  | tapeLength =>
      rw [ignored?, Settings.assign_tapeLength, Key.Rejects]
      cases CellCount.parse value <;> simp [Except.map, Except.mapError, eq_comm]
  | circular =>
      rw [ignored?, Settings.assign_circular, Key.Rejects]
      cases parseBool value <;> simp [Except.map, eq_comm]
  | addressing =>
      rw [ignored?, Settings.assign_addressing, Key.Rejects]
      cases Addressing.parse value <;> simp [Except.map, eq_comm]
  | eof =>
      rw [ignored?, Settings.assign_eof, Key.Rejects]
      cases EofPolicy.parse value <;> simp [Except.map, eq_comm]

end Assignment

end TapeMachine
