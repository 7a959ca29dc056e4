import TapeMachine.CommandLine.Command
import TapeMachine.Interpreter
import TapeMachine.Proofs.LoopTable
import TapeMachine.Proofs.Moment

/-!
# What a call comes to

The command goes its own way through parsing, allocation and the run, with an exit of its own
behind each of them.  It comes to the same as running the source text with the library: the response
to a call is made of the outcome of the text, with the parameters that the call resolves and on the
same input.  All that a call shows on the standard streams can be read off from this.
-/

namespace TapeMachine

namespace CommandLine

/-- The arguments name a source text, which is known to the reader as `origin`. -/
inductive Names (host : Host) (a : Arguments) : (origin source : String) → Prop where
  | code {source : String} (h : a.code = some source) : Names host a "<code>" source
  | file {path : String} {bytes : List UInt8} (hcode : a.code = none) (hfile : a.file = some path)
      (hread : host.file path = .ok bytes) : Names host a path (Text.Utf8.decodeLossy bytes)

/-- The parameters that a call resolves. -/
def configOf (host : Host) (a : Arguments) : Config :=
  Settings.Source.resolve (Settings.Source.fileReading host)
    (Settings.Source.environmentReading host) a.settings

/-- What a call logs before it looks at the source text. -/
def logOf (host : Host) (a : Arguments) (origin : String) : List LogEvent :=
  LogEvent.ofFileReading (Settings.Source.fileReading host) ++
    LogEvent.ofReading (Settings.Source.environmentReading host) ++
    [.configResolved (configOf host a) origin]

/-- The response to a call whose source text leads to the outcome `o`. -/
def Response.ofOutcome (origin source : String) (before : List LogEvent) (o : Outcome) :
    Response where
  ending :=
    match o.result with
    | .ok _ => { status := 0, log := before ++ o.log }
    | .error fault =>
        { status := 1, log := before ++ o.log
          message := Diagnostic.render origin source fault false }
  output := o.output

theorem Response.ending_ofOutcome_of_ok {o : Outcome} {m : Machine} (h : o.result = .ok m)
    (origin source : String) (before : List LogEvent) :
    (ofOutcome origin source before o).ending = { status := 0, log := before ++ o.log } := by
  simp only [ofOutcome, h]

theorem Response.ending_ofOutcome_of_error {o : Outcome} {fault : Fault}
    (h : o.result = .error fault) (origin source : String) (before : List LogEvent) :
    (ofOutcome origin source before o).ending =
      { status := 1, log := before ++ o.log
        message := Diagnostic.render origin source fault false } := by
  simp only [ofOutcome, h]

theorem Response.log_ofOutcome (origin source : String) (before : List LogEvent) (o : Outcome) :
    (ofOutcome origin source before o).ending.log = before ++ o.log := by
  unfold ofOutcome
  cases o.result <;> rfl

variable {host : Host} {a : Arguments} {origin source : String}

theorem findSource_eq_ok_iff :
    findSource host a = .ok (origin, source) ↔ Names host a origin source := by
  constructor
  · intro h
    unfold findSource at h
    split at h
    · next hcode =>
        cases h
        exact .code hcode
    · next hcode hfile =>
        split at h
        · next hread =>
            cases h
            exact .file hcode hfile hread
        · contradiction
        · contradiction
    · contradiction
  · rintro (hcode | ⟨hcode, hfile, hread⟩)
    · simp only [findSource, hcode]
    · simp only [findSource, hcode, hfile, hread]

theorem prepare_eq (hhelp : a.help = false) (hsource : Names host a origin source) :
    prepare host a =
      match Program.parse source with
      | .error fault =>
          .error { status := 1, log := logOf host a origin
                   message := Diagnostic.render origin source fault false }
      | .ok program =>
          match Machine.new (configOf host a) with
          | .error fault =>
              .error { status := 1, log := logOf host a origin ++ LogEvent.ofProgram program
                       message := Diagnostic.render origin source fault false }
          | .ok machine =>
              .ok { origin, source, config := configOf host a, program, machine
                    log := logOf host a origin ++ LogEvent.ofProgram program } := by
  have hfind := findSource_eq_ok_iff.2 hsource
  simp only [prepare, hhelp, hfind]
  rfl

/-- The machine that a call runs is one for the parameters that it resolves. -/
theorem machine_of_prepare (hhelp : a.help = false) (hsource : Names host a origin source)
    {job : Job} (h : prepare host a = .ok job) :
    job.config = configOf host a ∧ Machine.new (configOf host a) = .ok job.machine := by
  rw [prepare_eq hhelp hsource] at h
  split at h
  · contradiction
  · split at h
    · contradiction
    · next hnew =>
        obtain rfl := Except.ok.inj h
        exact ⟨rfl, hnew⟩

theorem runArguments_eq_map (hhelp : a.help = false) (hsource : Names host a origin source)
    (fuel : Nat) (input : List UInt8) :
    runArguments fuel host a input =
      (interpret fuel source (configOf host a) (.ofInput input)).map
        (Response.ofOutcome origin source (logOf host a origin)) := by
  rw [runArguments, prepare_eq hhelp hsource, interpret]
  cases Program.parse source with
  | error fault => simp [respond, Response.ofOutcome, Outcome.output]
  | ok program =>
      cases Machine.new (configOf host a) with
      | error fault => simp [respond, Response.ofOutcome, Outcome.output]
      | ok machine =>
          simp only [respond, Option.map_map]
          congr 1
          funext r
          simp only [Function.comp_apply, Response.ofOutcome, Outcome.ofReport, Job.conclude,
            Outcome.output, Report.output, List.append_assoc]
          cases r.fault <;> rfl

/-- A source text that is refused before anything runs. -/
theorem exists_response_of_refused (hhelp : a.help = false) (hsource : Names host a origin source)
    {fuel : Nat} {input : List UInt8} {fault : Fault} {log : List LogEvent}
    (h : interpret fuel source (configOf host a) (.ofInput input) =
      some { result := .error fault, log }) :
    ∃ response, runArguments fuel host a input = some response ∧ response.output = [] ∧
      response.ending.status = 1 ∧
        response.ending.message = Diagnostic.render origin source fault false := by
  rw [runArguments_eq_map hhelp hsource, h, Option.map_some]
  exact ⟨_, rfl, rfl, rfl, rfl⟩

/-- A call agrees with the library.  A call that names a source text stops if the run of the text
stops, with the parameters that the call resolves and on its input.  The call then has written what
the run wrote, its status tells whether the run succeeded, and behind the log the standard error
stream has the message about the fault, or nothing if there is none.  An open loop is reported
whether or not there is memory for the tape, and if nothing was run, nothing is written. -/
theorem runArguments_agrees (hhelp : a.help = false) (hsource : Names host a origin source)
    (input : List UInt8) :
    let config := Settings.Source.resolve (Settings.Source.fileReading host)
      (Settings.Source.environmentReading host) a.settings
    let run (fuel : Nat) := interpret fuel source config (.ofInput input)
    (∀ fuel, runArguments fuel host a input = none ↔ run fuel = none) ∧
    (∀ fuel o, run fuel = some o →
      ∃ response, runArguments fuel host a input = some response ∧ response.output = o.output ∧
        (response.ending.status = 0 ↔ ∃ m, o.result = .ok m) ∧
        (∀ m, o.result = .ok m → response.ending.message = "") ∧
        (∀ fault, o.result = .error fault → response.ending.status = 1 ∧
          response.ending.message = Diagnostic.render origin source fault false) ∧
        response.ending.errors host =
          (Verbosity.ofFilter (host.text? "BFRUN_LOG")).render (logOf host a origin ++ o.log) ++
            response.ending.message) ∧
    (∀ fault, Program.parse source = .error fault →
      (∃ address, fault = .unmatchedLoopStart address) ∧
      ∀ fuel, ∃ response, runArguments fuel host a input = some response ∧
        response.output = [] ∧ response.ending.status = 1 ∧
          response.ending.message = Diagnostic.render origin source fault false) ∧
    (∀ p, Program.parse source = .ok p →
      Tape.allocate? config.tapeLength config.addressing = none →
      ∀ fuel, ∃ response, runArguments fuel host a input = some response ∧
        response.output = [] ∧ response.ending.status = 1 ∧
          response.ending.message =
            Diagnostic.render origin source (.tapeAllocation config.tapeLength.val) false) := by
  intro config run
  have hcall (fuel : Nat) : runArguments fuel host a input =
      (run fuel).map (Response.ofOutcome origin source (logOf host a origin)) :=
    runArguments_eq_map hhelp hsource fuel input
  refine ⟨fun fuel => ?_, fun fuel o ho => ?_, fun fault hparse => ⟨?_, fun fuel => ?_⟩,
    fun p hparse hmemory fuel => ?_⟩
  · rw [hcall, Option.map_eq_none_iff]
  · refine ⟨_, by rw [hcall, ho, Option.map_some], rfl, ?_⟩
    cases hresult : o.result with
    | ok m =>
        have hending := Response.ending_ofOutcome_of_ok hresult origin source (logOf host a origin)
        rw [hending]
        exact ⟨by simp, by simp, by simp, rfl⟩
    | error fault =>
        have hending :=
          Response.ending_ofOutcome_of_error hresult origin source (logOf host a origin)
        rw [hending]
        exact ⟨by simp, by simp, by simp, rfl⟩
  · obtain ⟨address, -, rfl⟩ := Program.ofCode_eq_error_iff.1 hparse
    exact ⟨address, rfl⟩
  · apply exists_response_of_refused hhelp hsource
    simp only [interpret, hparse]
    rfl
  · have hnew := Machine.new_eq_error_iff.2 ⟨hmemory, rfl⟩
    apply exists_response_of_refused hhelp hsource
    simp only [interpret, hparse, configOf]
    rw [hnew]

/-- A file with a torn character in front of its three instructions, and a code that is refused for
its open loop although there is no memory for the tape either. -/
theorem runArguments_agrees_torn_and_open :
    let host : Host :=
      { environment := fun _ => none
        file := fun path =>
          if path = "p.bf" then .ok [0xC3, 0x2B, 0x2E, 0x3C] else .error .notFound }
    let torn : Arguments := { size := some ⟨2, by decide, by decide⟩, file := some "p.bf" }
    let tooLong : Arguments :=
      { size := some ⟨281474976710656, by decide, by decide⟩, code := some "+[" }
    (∃ response, runArguments 9 host torn [] = some response ∧ response.output = [1] ∧
      response.ending.status = 1 ∧ response.ending.message =
        "Runtime error: pointer out of range (ptr=-1) at p.bf:1:4 (instruction 2)\n" ++
          "  \uFFFD+.<\n     ^\n") ∧
    ∃ response, runArguments 9 host tooLong [] = some response ∧ response.output = [] ∧
      response.ending.status = 1 ∧ response.ending.message =
        "Parse error: unmatched '[' at <code>:1:2 (instruction 1)\n  +[\n   ^\n" := by
  intro host torn tooLong
  constructor
  · have hdecode : Text.Utf8.decodeLossy [0xC3, 0x2B, 0x2E, 0x3C] = "\uFFFD+.<" := by decide +kernel
    have hsource : Names host torn "p.bf" "\uFFFD+.<" := hdecode ▸ .file rfl rfl rfl
    let config : Config := { tapeLength := ⟨2, by decide, by decide⟩ }
    have hconfig : configOf host torn = config := by decide +kernel
    let o : Outcome := (interpret 9 "\uFFFD+.<" config (.ofInput [])).get (by decide)
    have ho : interpret 9 "\uFFFD+.<" (configOf host torn) (.ofInput []) = some o := by
      rw [hconfig]
      exact (Option.some_get _).symm
    obtain ⟨-, hagrees, -⟩ := runArguments_agrees rfl hsource []
    obtain ⟨response, hcall, houtput, -, -, hfault, -⟩ := hagrees 9 o ho
    have hresult : o.result = .error (.pointerOutOfRange 2 (-1)) := by decide
    obtain ⟨hstatus, hmessage⟩ := hfault _ hresult
    exact ⟨response, hcall, houtput.trans (by decide), hstatus,
      hmessage.trans (by decide +kernel)⟩
  · have hsource : Names host tooLong "<code>" "+[" := .code rfl
    have hparse : Program.parse "+[" = .error (.unmatchedLoopStart 1) := by rfl
    obtain ⟨-, -, hrefused, -⟩ := runArguments_agrees rfl hsource []
    obtain ⟨response, hcall, houtput, hstatus, hmessage⟩ := (hrefused _ hparse).2 9
    exact ⟨response, hcall, houtput, hstatus, hmessage.trans (by decide +kernel)⟩

end CommandLine

end TapeMachine
