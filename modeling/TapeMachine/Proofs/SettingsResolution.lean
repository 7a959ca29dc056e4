import Mathlib.Data.List.ReduceOption
import TapeMachine.Proofs.CommandOutcome
import TapeMachine.Proofs.LossyDecoding
import TapeMachine.Proofs.SettingsFile
import TapeMachine.Proofs.SettingsLayers

/-!
# The parameters of a call

The parameters of a call come from its options, from the environment, from the settings file and
from the defaults, and each parameter is looked up in this order on its own (`Chosen`).  What is not
a valid value, or not even a text, is passed over, so it hides nothing that lies below.  The
warnings are those about the file, line by line, and then those about the variables.
-/

namespace TapeMachine

namespace Host

/-- The variable `name` is set to a well-formed text that means `value`. -/
def Gives {α : Type} (host : Host) (name : String) (means : String → α → Prop) (value : α) : Prop :=
  ∃ text : String, host.environment name = some text.toUTF8.data.toList ∧ means text value

/-- The complaint that is due about the variable `name`, if it is set to a well-formed text that is
no valid value for `key`. -/
def Complains (host : Host) (name : String) (key : Key) (complaint : Option IgnoredAssignment) :
    Prop :=
  ∀ i, complaint = some i ↔ ∃ text : String,
    host.environment name = some text.toUTF8.data.toList ∧
      i.assignment = ⟨name, key, text⟩ ∧ key.Rejects text i.reason

end Host

namespace Settings

/-- The settings of the file of a host and the warnings about it.  A host without a path for the
file is not looked into. -/
inductive Source.FileLayer (host : Host) : Settings → List LogEvent → Prop where
  | pathless (hpath : filePath? host = none) : FileLayer host {} []
  | loaded {path content : String} {settings : Settings}
      {complaints : List (Nat × IgnoredAssignment)} (hpath : filePath? host = some path)
      (h : host.fileText path = .ok content)
      (hmeans : File.Means path content settings complaints) :
      FileLayer host settings (complaints.map fun x => .settingIgnored x.2)
  | absent {path : String} (hpath : filePath? host = some path)
      (h : host.fileText path = .error .notFound) : FileLayer host {} []
  | unreadable {path : String} {reason : FileError} (hpath : filePath? host = some path)
      (h : host.fileText path = .error reason) (hreason : reason ≠ .notFound) :
      FileLayer host {} [.fileUnreadable path reason]

end Settings

namespace CommandLine

/-- The value of a parameter: that of its option, or else that of its variable, or else that of the
file, or else the default. -/
inductive Chosen {α : Type} (option : Option α) (given : α → Prop) (file : Option α) (default : α) :
    α → Prop where
  | option {value : α} (h : option = some value) : Chosen option given file default value
  | given {value : α} (hoption : option = none) (h : given value) :
      Chosen option given file default value
  | file {value : α} (hoption : option = none) (hgiven : ∀ value, ¬ given value)
      (h : file = some value) : Chosen option given file default value
  | default (hoption : option = none) (hgiven : ∀ value, ¬ given value) (h : file = none) :
      Chosen option given file default default

/-- The parameters chosen for a call over the settings of a file. -/
structure ChosenOver (host : Host) (a : Arguments) (file : Settings) (config : Config) : Prop where
  tapeLength : Chosen a.size
    (host.Gives "BFRUN_TAPE_LENGTH" fun text count => CellCount.parse text = .ok count)
    file.tapeLength ⟨65536, by decide, by decide⟩ config.tapeLength
  addressing : Chosen
    (if a.circular then some .circular else if a.bounded then some .bounded else none)
    (host.Gives "BFRUN_CIRCULAR" fun text mode => parseBool text = .ok (mode = .circular))
    file.addressing .bounded config.addressing
  eof : Chosen a.eof
    (host.Gives "BFRUN_EOF" fun text policy => EofPolicy.parse text = .ok policy)
    file.eof .zero config.eof

/-- The warnings of a call: those about the file, and behind them at most one about each variable,
in this order. -/
def WarnedOver (host : Host) (fileWarnings warnings : List LogEvent) : Prop :=
  ∃ length circular eof, host.Complains "BFRUN_TAPE_LENGTH" .tapeLength length ∧
    host.Complains "BFRUN_CIRCULAR" .circular circular ∧ host.Complains "BFRUN_EOF" .eof eof ∧
      warnings = fileWarnings ++ [length, circular, eof].reduceOption.map .settingIgnored

end CommandLine

namespace Host

variable {host : Host}

theorem text?_eq_some_iff {name text : String} :
    host.text? name = some text ↔ host.environment name = some text.toUTF8.data.toList := by
  simp only [text?, Option.bind_eq_some_iff, Text.Utf8.decode?_eq_some_iff]
  constructor
  · rintro ⟨bytes, hbytes, rfl⟩
    exact hbytes
  · intro h
    exact ⟨_, h, rfl⟩

/-- What a variable says, as an assignment. -/
def assignment? (host : Host) (name : String) (key : Key) : Option Assignment :=
  (host.text? name).map fun value => { origin := name, key, value }

theorem assignment?_eq_some_iff {name : String} {key : Key} {a : Assignment} :
    host.assignment? name key = some a ↔ ∃ text : String,
      host.environment name = some text.toUTF8.data.toList ∧ a = ⟨name, key, text⟩ := by
  rw [assignment?, Option.map_eq_some_iff]
  exact exists_congr fun text => and_congr text?_eq_some_iff eq_comm

theorem complains_assignment? (name : String) (key : Key) :
    host.Complains name key ((host.assignment? name key).bind Assignment.ignored?) := by
  intro i
  simp only [Option.bind_eq_some_iff, assignment?_eq_some_iff, Assignment.ignored?_eq_some_iff]
  constructor
  · rintro ⟨_, ⟨text, htext, rfl⟩, hi, hrejects⟩
    exact ⟨text, htext, hi, hrejects⟩
  · rintro ⟨text, htext, hi, hrejects⟩
    exact ⟨_, ⟨text, htext, rfl⟩, hi, hrejects⟩

end Host

namespace Settings

namespace Source

variable {host : Host}

theorem environmentReading_eq (host : Host) :
    environmentReading host = Reading.ofAssignments
      [host.assignment? "BFRUN_TAPE_LENGTH" .tapeLength,
        host.assignment? "BFRUN_CIRCULAR" .circular,
        host.assignment? "BFRUN_EOF" .eof].reduceOption := by
  rfl

theorem filterMap_reduceOption {α β : Type} (f : α → Option β) (l : List (Option α)) :
    l.reduceOption.filterMap f = (l.map (·.bind f)).reduceOption := by
  simp only [List.reduceOption, List.filterMap_filterMap, List.filterMap_map]
  rfl

theorem ignored_environmentReading (host : Host) :
    (environmentReading host).ignored.toList =
      [(host.assignment? "BFRUN_TAPE_LENGTH" .tapeLength).bind Assignment.ignored?,
        (host.assignment? "BFRUN_CIRCULAR" .circular).bind Assignment.ignored?,
        (host.assignment? "BFRUN_EOF" .eof).bind Assignment.ignored?].reduceOption := by
  rw [environmentReading_eq, Reading.toList_ignored_ofAssignments, filterMap_reduceOption]
  rfl

section Field

variable {α : Type} {field : Settings → Option α} {name : String} (key : Key)
  (hopen : field {} = none)
  (hoverlay : ∀ lower upper, field (lower.overlay upper) = (field upper).or (field lower))
  (hkey : (name, key) ∈ settingVariables)

include hopen hoverlay hkey

/-- The other variables leave a parameter open. -/
theorem field_environmentReading
    (hother : ∀ a : Assignment, a.key ≠ key → a.key ≠ .addressing → field a.said = none) :
    field (environmentReading host).settings =
      (host.assignment? name key).bind fun a => field a.said := by
  have hnone {name' : String} {key' : Key} (hne : key' ≠ key) (hset : key' ≠ .addressing) :
      (host.assignment? name' key').bind (fun a => field a.said) = none := by
    rw [Option.bind_eq_none_iff]
    intro a ha
    obtain ⟨text, -, rfl⟩ := Host.assignment?_eq_some_iff.1 ha
    exact hother _ hne hset
  rw [environmentReading_eq, Reading.ofAssignments_getLast? hopen hoverlay, filterMap_reduceOption]
  simp only [settingVariables, List.mem_cons, Prod.mk.injEq, List.not_mem_nil, or_false] at hkey
  rcases hkey with ⟨rfl, rfl⟩ | ⟨rfl, rfl⟩ | ⟨rfl, rfl⟩
  · cases h : (host.assignment? "BFRUN_TAPE_LENGTH" .tapeLength).bind fun a => field a.said <;>
      simp [h, hnone]
  · cases h : (host.assignment? "BFRUN_CIRCULAR" .circular).bind fun a => field a.said <;>
      simp [h, hnone]
  · cases h : (host.assignment? "BFRUN_EOF" .eof).bind fun a => field a.said <;>
      simp [h, hnone]

theorem field_environmentReading_eq_some_iff {means : String → α → Prop}
    (hmeans : ∀ (a : Assignment) (value : α), a.key ≠ .addressing →
      (field a.said = some value ↔ a.key = key ∧ means a.value value)) (value : α) :
    field (environmentReading host).settings = some value ↔ host.Gives name means value := by
  have hset : key ≠ .addressing := by
    rintro rfl
    simp [settingVariables] at hkey
  rw [field_environmentReading key hopen hoverlay hkey, Option.bind_eq_some_iff]
  · constructor
    · rintro ⟨a, ha, hvalue⟩
      obtain ⟨text, htext, rfl⟩ := Host.assignment?_eq_some_iff.1 ha
      exact ⟨text, htext, ((hmeans _ value hset).1 hvalue).2⟩
    · rintro ⟨text, htext, hvalue⟩
      exact ⟨_, Host.assignment?_eq_some_iff.2 ⟨text, htext, rfl⟩,
        (hmeans _ value hset).2 ⟨rfl, hvalue⟩⟩
  · intro a hne hne'
    rw [Option.eq_none_iff_forall_ne_some]
    intro value hvalue
    exact hne ((hmeans a value hne').1 hvalue).1

end Field

/-! ## The settings file -/

theorem filter_isWarning_ofReading (r : Reading) :
    (LogEvent.ofReading r).filter LogEvent.isWarning = LogEvent.ofReading r := by
  rw [List.filter_eq_self, LogEvent.ofReading, List.forall_mem_map]
  exact fun _ _ => rfl

theorem fileLayer_ofPath {path : String} (hpath : filePath? host = some path) :
    FileLayer host (FileReading.ofPath host path).settings
      ((LogEvent.ofFileReading (FileReading.ofPath host path)).filter LogEvent.isWarning) := by
  cases h : host.fileText path with
  | ok content =>
      have hreading : FileReading.ofPath host path = .loaded path (File.read path content) := by
        rw [FileReading.ofPath, h]
      obtain ⟨complaints, hmeans, hmap⟩ := File.exists_means_read path content
      have hwarnings :
          (LogEvent.ofFileReading (FileReading.ofPath host path)).filter LogEvent.isWarning =
            complaints.map fun x => .settingIgnored x.2 := by
        rw [hreading, LogEvent.ofFileReading, List.filter_append, filter_isWarning_ofReading,
          File.ofReading_read hmap]
        exact List.append_nil _
      rw [hwarnings, hreading]
      exact .loaded hpath h hmeans
  | error reason =>
      by_cases hreason : reason = .notFound
      · have hreading : FileReading.ofPath host path = .absent := by
          rw [FileReading.ofPath, h, hreason]
        rw [hreading]
        exact .absent hpath (hreason ▸ h)
      · have hreading : FileReading.ofPath host path = .unreadable path reason := by
          cases reason with
          | notFound => contradiction
          | isDirectory | notADirectory | notText | other => rw [FileReading.ofPath, h]
        rw [hreading]
        exact .unreadable hpath h hreason

theorem fileLayer_fileReading (host : Host) :
    FileLayer host (fileReading host).settings
      ((LogEvent.ofFileReading (fileReading host)).filter LogEvent.isWarning) := by
  cases hpath : filePath? host with
  | none =>
      have hreading : fileReading host = .absent := by rw [fileReading, hpath]
      rw [hreading]
      exact .pathless hpath
  | some path =>
      have hreading : fileReading host = .ofPath host path := by rw [fileReading, hpath]
      rw [hreading]
      exact fileLayer_ofPath hpath

end Source

end Settings

namespace CommandLine

open Settings Settings.Source

theorem chosen_getD {α : Type} {option environment file : Option α} {given : α → Prop}
    (hgiven : ∀ value, environment = some value ↔ given value) (default : α) :
    Chosen option given file default ((option.or (environment.or file)).getD default) := by
  cases option with
  | some value => exact .option rfl
  | none =>
      cases environment with
      | some value => exact .given rfl ((hgiven value).1 rfl)
      | none =>
          have hnone (value : α) : ¬ given value := by simp [← hgiven]
          cases file with
          | some value => exact .file rfl hnone rfl
          | none => exact .default rfl hnone rfl

theorem chosenOver_configOf (host : Host) (a : Arguments) :
    ChosenOver host a (fileReading host).settings (configOf host a) := by
  have hlength (count : CellCount) :
      (environmentReading host).settings.tapeLength = some count ↔
        host.Gives "BFRUN_TAPE_LENGTH" (fun text count => CellCount.parse text = .ok count) count :=
    field_environmentReading_eq_some_iff .tapeLength rfl (fun _ _ => rfl)
      (by simp [settingVariables]) (fun a count _ => a.said_iff.1 count) count
  have haddressing (mode : Addressing) :
      (environmentReading host).settings.addressing = some mode ↔
        host.Gives "BFRUN_CIRCULAR" (fun text mode => parseBool text = .ok (mode = .circular))
          mode :=
    field_environmentReading_eq_some_iff .circular rfl (fun _ _ => rfl)
      (by simp [settingVariables])
      (fun a mode hset => (a.said_iff.2.1 mode).trans (by simp [hset])) mode
  have heof (policy : EofPolicy) :
      (environmentReading host).settings.eof = some policy ↔
        host.Gives "BFRUN_EOF" (fun text policy => EofPolicy.parse text = .ok policy) policy :=
    field_environmentReading_eq_some_iff .eof rfl (fun _ _ => rfl)
      (by simp [settingVariables]) (fun a policy _ => a.said_iff.2.2 policy) policy
  exact ⟨chosen_getD hlength _, chosen_getD haddressing _, chosen_getD heof _⟩

theorem warnedOver_logOf (host : Host) (a : Arguments) (origin : String) :
    WarnedOver host
      ((LogEvent.ofFileReading (fileReading host)).filter LogEvent.isWarning)
      ((logOf host a origin).filter LogEvent.isWarning) := by
  refine ⟨_, _, _, host.complains_assignment? _ _, host.complains_assignment? _ _,
    host.complains_assignment? _ _, ?_⟩
  rw [← ignored_environmentReading, logOf, List.filter_append, List.filter_append,
    filter_isWarning_ofReading]
  exact List.append_nil _

theorem not_isWarning_of_interpret {fuel : Nat} {source : String} {config : Config} {s : Streams}
    {o : Outcome} (h : interpret fuel source config s = some o) :
    ∀ event ∈ o.log, ¬ event.isWarning := by
  rw [interpret] at h
  split at h
  · obtain rfl := Option.some.inj h
    simp
  · split at h
    · obtain rfl := Option.some.inj h
      simp [LogEvent.ofProgram, LogEvent.isWarning]
    · obtain ⟨r, -, rfl⟩ := Option.map_eq_some_iff.1 h
      simp [Outcome.ofReport, LogEvent.ofProgram, LogEvent.ofReport, LogEvent.isWarning]

/-- How settings are resolved.  Layers are looked through from the last to the first, for each
parameter on its own, and may be laid together in groups.  A call takes each parameter from its
options, or else from its variable if that is a text that can be read as a value, or else from the
settings file, or else from the defaults.  Its warnings are those about the file and then those
about the variables. -/
theorem settings_by_layers {host : Host} {a : Arguments} {origin source : String}
    (hhelp : a.help = false) (hsource : Names host a origin source) :
    (∀ layers,
      Topmost tapeLength ⟨65536, by decide, by decide⟩ layers
        (ofLayers layers).resolve.tapeLength ∧
      Topmost addressing .bounded layers (ofLayers layers).resolve.addressing ∧
      Topmost eof .zero layers (ofLayers layers).resolve.eof) ∧
    (∀ groups : List (List Settings),
      (ofLayers (groups.map ofLayers)).resolve = (ofLayers groups.flatten).resolve) ∧
    ∃ config file fileWarnings warnings,
      FileLayer host file fileWarnings ∧ ChosenOver host a file config ∧
      WarnedOver host fileWarnings warnings ∧
      (∀ job, prepare host a = .ok job →
        job.config = config ∧ Machine.new config = .ok job.machine) ∧
      ∀ fuel input response, runArguments fuel host a input = some response →
        .configResolved config origin ∈ response.ending.log ∧
          response.ending.log.filter LogEvent.isWarning = warnings := by
  refine ⟨fun layers => ⟨?_, ?_, ?_⟩, fun groups => ?_, configOf host a, _, _, _,
    fileLayer_fileReading host, chosenOver_configOf host a, warnedOver_logOf host a origin,
    fun job hjob => ?_, fun fuel input response hcall => ?_⟩
  · exact topmost_getD rfl (fun _ _ => rfl) _ layers
  · exact topmost_getD rfl (fun _ _ => rfl) _ layers
  · exact topmost_getD rfl (fun _ _ => rfl) _ layers
  · rw [ofLayers_map_ofLayers]
  · exact machine_of_prepare hhelp hsource hjob
  · rw [runArguments_eq_map hhelp hsource] at hcall
    obtain ⟨o, ho, rfl⟩ := Option.map_eq_some_iff.1 hcall
    rw [Response.log_ofOutcome, List.filter_append,
      List.filter_eq_nil_iff.2 (not_isWarning_of_interpret ho), List.append_nil]
    exact ⟨by simp [logOf], rfl⟩

/-- The length comes from the file, since the variable is not positive and the last line for it in
the file is no number; so does the addressing, since its variable is not even a text. -/
theorem settings_by_layers_passed_over :
    let content := "[interpreter]\ntape_length = 3\ntape_length = x\ncircular = yes\neof = max\n"
    let host : Host :=
      { environment := fun name =>
          match name with
          | "BFRUN_CONFIG" => some "f".toUTF8.data.toList
          | "BFRUN_TAPE_LENGTH" => some "0".toUTF8.data.toList
          | "BFRUN_CIRCULAR" => some [0xFF]
          | "BFRUN_EOF" => some "keep".toUTF8.data.toList
          | _ => none
        file := fun path =>
          if path = "f" then .ok content.toUTF8.data.toList else .error .notFound }
    let a : Arguments := { code := some "<." }
    let config : Config :=
      { tapeLength := ⟨3, by decide, by decide⟩, addressing := .circular, eof := .unchanged }
    let warnings : List LogEvent :=
      [.settingIgnored ⟨⟨"f", .tapeLength, "x"⟩, .cellCount .invalidDigit⟩,
        .settingIgnored ⟨⟨"BFRUN_TAPE_LENGTH", .tapeLength, "0"⟩, .cellCount .zero⟩]
    ∃ response file fileWarnings, runArguments 3 host a [] = some response ∧
      FileLayer host file fileWarnings ∧ ChosenOver host a file config ∧
      WarnedOver host fileWarnings warnings ∧
      .configResolved config "<code>" ∈ response.ending.log ∧
      response.ending.log.filter LogEvent.isWarning = warnings := by
  intro content host a config warnings
  have hsource : Names host a "<code>" "<." := .code rfl
  have hshown : (runArguments 3 host a []).map
      (fun response => response.ending.log.filter LogEvent.isWarning) = some warnings := by
    decide +kernel
  obtain ⟨response, hcall, hwarnings⟩ := Option.map_eq_some_iff.1 hshown
  obtain ⟨-, -, config', file, fileWarnings, warnings', hlayer, hchosen, hwarned, hjob, hlog⟩ :=
    settings_by_layers rfl hsource
  obtain ⟨hresolved, hwarnings'⟩ := hlog 3 [] response hcall
  have hprepared : (prepare host a).toOption.map (·.config) = some config := by decide +kernel
  have hconfig : config' = config := by
    cases hprepare : prepare host a with
    | error ending =>
        rw [hprepare] at hprepared
        cases hprepared
    | ok job =>
        rw [hprepare] at hprepared
        exact (hjob job hprepare).1.symm.trans (Option.some.inj hprepared)
  rw [hconfig] at hchosen hresolved
  rw [← hwarnings', hwarnings] at hwarned
  exact ⟨response, file, fileWarnings, hcall, hlayer, hchosen, hwarned, hresolved, hwarnings⟩

end CommandLine

end TapeMachine
