import SqlSchema.Proofs.CommandLine.Concatenation
import SqlSchema.Proofs.Settings.Load

/-! The plan of a request: what a flag says counts more than the settings file, which counts more than the defaults. The
log level of a plan decides what is logged and nothing else, so two runs that differ in it put out the same and end alike. -/
namespace SqlSchema.CommandLine
open Settings

namespace Request

/-- The settings behind the flags of a request. -/
def asked (r : Request) (s : Settings) : Settings :=
  { s with
    mode := (r.mode?.map Document.text).getD s.mode
    format := (r.format?.map Document.text).getD s.format
    logLevel := (r.logLevel?.map Document.text).getD s.logLevel }

/-- The settings that a request begins with: fresh ones, or those that its settings file leaves. -/
inductive Begins (files : Files) (r : Request) : Settings → Prop where
  | fresh (unnamed : r.settingsFile? = none) : Begins files r {}
  | loaded {name : String} {source : Source} {s : Settings} (named : r.settingsFile? = some name)
    (found : files.settings? name = some source) (loads : (load name source).on {} = (.ok (), s)) : Begins files r s

/-- A request gives a plan: all three values are names of what the plan says. -/
def Gives (files : Files) (r : Request) (p : Plan) : Prop :=
  ∃ s, r.Begins files s ∧ (r.asked s).mode = .text p.dialect.name ∧ (r.asked s).format = .text p.format.name ∧
    (r.asked s).logLevel = .text p.level.name

def planOf (s : Settings) : Plan where
  dialect := s.dialect?.getD .mysql
  format := s.format?.getD .yaml
  level := s.level?.getD .info

/-- The flags are taken over, then everything is validated. -/
theorem on_settings_none (r : Request) (s : Settings) :
    (r.settings none).on s = match validate.on (r.asked s) with
      | (.ok _, after) => (.ok (planOf after), after)
      | (.error f, after) => (.error f, after) := by
  have parts : (r.settings none).on s = (do validate; return planOf (← get) : Action Plan).on (r.asked s) := by
    obtain ⟨files, config, mode, format, level⟩ := r
    cases mode <;> cases format <;> cases level <;> rfl
  rw [parts, on_bind]
  match validate.on (r.asked s) with
  | (.ok _, after) => rfl
  | (.error f, after) => rfl

theorem on_settings_some (r : Request) (name : String) (source : Source) (s : Settings) :
    (r.settings (some (name, source))).on s = match (load name source).on s with
      | (.ok _, after) => (r.settings none).on after
      | (.error f, after) => (.error f, after) := by
  rw [settings, on_bind]
  match (load name source).on s with
  | (.ok _, after) => rfl
  | (.error f, after) => rfl

theorem planOf_eq_iff {s : Settings} (valid : s.Valid) (p : Plan) :
    planOf s = p ↔ s.mode = .text p.dialect.name ∧ s.format = .text p.format.name ∧ s.logLevel = .text p.level.name := by
  obtain ⟨⟨d, mode⟩, ⟨l, level⟩, ⟨f, format⟩⟩ := valid
  rw [← dialect?_eq_some_iff, ← format?_eq_some_iff, ← level?_eq_some_iff, planOf, (dialect?_eq_some_iff s d).mpr mode,
    (level?_eq_some_iff s l).mpr level, (format?_eq_some_iff s f).mpr format]
  obtain ⟨dialect, format, level⟩ := p
  simp

/-- A plan is made from valid settings only, and it leaves the flag that belongs to the log level. -/
theorem settings_none_eq_iff {r : Request} {s after : Settings} {p : Plan} :
    (r.settings none).on s = (.ok p, after) ↔ (r.asked s).Valid ∧ after = (r.asked s).flagged ∧ planOf (r.asked s) = p := by
  rw [on_settings_none]
  match ran : validate.on (r.asked s) with
  | (.ok (), left) =>
    obtain ⟨valid, rfl⟩ := validate_eq_ok_iff.mp ran
    have same : planOf (r.asked s).flagged = planOf (r.asked s) := rfl
    simp only [Prod.mk.injEq, Except.ok.injEq, same, valid, true_and]
    exact ⟨fun ⟨plan, settings⟩ => ⟨settings.symm, plan⟩, fun ⟨settings, plan⟩ => ⟨plan, settings.symm⟩⟩
  | (.error f, left) =>
    have invalid : ¬ (r.asked s).Valid := fun valid => nomatch ran.symm.trans (validate_eq_ok_iff.mpr ⟨valid, rfl⟩)
    simp [invalid]

/-- From the settings that it begins with, a request makes a plan exactly if the three values are valid. -/
theorem settings_none_eq_ok_iff (r : Request) (s : Settings) (p : Plan) :
    (∃ after, (r.settings none).on s = (.ok p, after)) ↔ (r.asked s).mode = .text p.dialect.name ∧
      (r.asked s).format = .text p.format.name ∧ (r.asked s).logLevel = .text p.level.name := by
  constructor
  · rintro ⟨after, planned⟩
    obtain ⟨valid, -, plan⟩ := settings_none_eq_iff.mp planned
    exact (planOf_eq_iff valid p).mp plan
  · rintro ⟨mode, format, level⟩
    have valid : (r.asked s).Valid := ⟨⟨_, mode⟩, ⟨_, level⟩, ⟨_, format⟩⟩
    exact ⟨_, settings_none_eq_iff.mpr ⟨valid, rfl, (planOf_eq_iff valid p).mpr ⟨mode, format, level⟩⟩⟩

/-- A request with a settings file makes its plan from what loading the file leaves. -/
theorem settings_some_eq_iff {r : Request} {name : String} {source : Source} {s after : Settings} {p : Plan} :
    (r.settings (some (name, source))).on s = (.ok p, after) ↔
      ∃ between, (load name source).on s = (.ok (), between) ∧ (r.settings none).on between = (.ok p, after) := by
  rw [on_settings_some]
  match (load name source).on s with
  | (.ok (), between) => simp
  | (.error f, between) => simp

/-- Single statements are logged exactly if the flag is set at last. -/
theorem listed_eq_debug (r : Request) (source : Option (String × Source)) (p : Plan) (s after : Settings)
    (planned : (r.settings source).on s = (.ok p, after)) : p.listed = after.debug := by
  have last (s : Settings) (planned : (r.settings none).on s = (.ok p, after)) : p.listed = after.debug := by
    obtain ⟨valid, rfl, rfl⟩ := settings_none_eq_iff.mp planned
    obtain ⟨l, named⟩ := valid.level
    have level := (level?_eq_some_iff (r.asked s) l).mpr named
    rw [Plan.listed, planOf, Settings.flagged, level]
    cases l <;> rfl
  cases source with
  | none => exact last s planned
  | some named =>
    obtain ⟨between, -, planned⟩ := settings_some_eq_iff.mp planned
    exact last between planned

theorem mapError_on_eq_ok_iff {x : Settings.Action Plan} {p : Plan} :
    ((x.run {}).1.mapError Failure.settings : Except Failure Plan) = .ok p ↔ ∃ after, x.on {} = (.ok p, after) := by
  rw [Attempt.mapError_eq_ok]
  exact ⟨fun ok => ⟨(x.on {}).2, Prod.ext ok rfl⟩, fun ⟨_, ok⟩ => congrArg Prod.fst ok⟩

section Begins
variable {files : Files} {r : Request} {name : String} {s : Settings}

theorem begins_of_unnamed (unnamed : r.settingsFile? = none) : r.Begins files s ↔ s = {} := by
  constructor
  · intro begins
    cases begins with
    | fresh => rfl
    | loaded named => cases unnamed.symm.trans named
  · rintro rfl
    exact .fresh unnamed

theorem begins_of_named (named : r.settingsFile? = some name) :
    r.Begins files s ↔ ∃ source, files.settings? name = some source ∧ (load name source).on {} = (.ok (), s) := by
  constructor
  · intro begins
    cases begins with
    | fresh unnamed => cases named.symm.trans unnamed
    | loaded other found loads =>
      cases named.symm.trans other
      exact ⟨_, found, loads⟩
  · rintro ⟨source, found, loads⟩
    exact .loaded named found loads

end Begins

/-- A request has a plan exactly if it gives one. -/
theorem plan_eq_ok_iff (files : Files) (r : Request) (p : Plan) : r.plan files = .ok p ↔ r.Gives files p := by
  cases named : r.settingsFile? with
  | none =>
    have parts : r.plan files = ((r.settings none).run {}).1.mapError .settings := by
      rw [plan, named]
      rfl
    rw [parts, mapError_on_eq_ok_iff, settings_none_eq_ok_iff]
    simp only [Gives, begins_of_unnamed named, exists_eq_left]
  | some name =>
    cases found : files.settings? name with
    | none =>
      have parts : r.plan files = .error (.fileMissing name) := by
        rw [plan, named]
        simp only [found]
        rfl
      simp [parts, Gives, begins_of_named named, found]
    | some source =>
      have parts : r.plan files = ((r.settings (some (name, source))).run {}).1.mapError .settings := by
        rw [plan, named]
        simp only [found]
        rfl
      simp only [parts, mapError_on_eq_ok_iff, settings_some_eq_iff, Gives, begins_of_named named, found,
        Option.some.injEq, exists_eq_left', ← settings_none_eq_ok_iff]
      exact ⟨fun ⟨after, s, loads, planned⟩ => ⟨s, loads, after, planned⟩,
        fun ⟨s, loads, after, planned⟩ => ⟨after, s, loads, planned⟩⟩

end Request

/-! Two plans that differ in the log level only. -/

section Level
variable {files files' : Files} {p p' : Plan}

theorem Files.Holds.of_level {name : String} {b : Batch} (dialect : p'.dialect = p.dialect)
    (text : files'.text? name = files.text? name) (holds : files.Holds p name b) : files'.Holds p' name b := by
  obtain ⟨content, found, read⟩ := holds
  exact ⟨content, text.trans found, by rw [dialect, read]⟩

theorem Files.Fails.of_level {name : String} {f : Failure} (dialect : p'.dialect = p.dialect)
    (text : files'.text? name = files.text? name) (fails : files.Fails p name f) : files'.Fails p' name f := by
  cases fails with
  | missing absent => exact .missing (text.trans absent)
  | interrupted content i found stuck => exact .interrupted content i (text.trans found) (by rw [dialect, stuck])

theorem Plan.print_of_level (format : p'.format = p.format) : p'.print = p.print := by
  funext batches
  rw [Plan.print, Plan.print, format]

theorem holds_of_level {names : List String} {batches : List Batch} (dialect : p'.dialect = p.dialect)
    (texts : ∀ name ∈ names, files'.text? name = files.text? name)
    (hold : List.Forall₂ (files.Holds p) names batches) : List.Forall₂ (files'.Holds p') names batches := by
  induction hold with
  | nil => exact .nil
  | cons holds _ ih =>
    obtain ⟨here, later⟩ := List.forall_mem_cons.mp texts
    exact .cons (holds.of_level dialect here) (ih later)

end Level

/-- Two runs over the same files, asked for with the same dialect and format, put out the same and end alike, whatever log
levels the command lines and the settings files give. -/
theorem run_indifferent_to_level (time time' : String) (files files' : Files) (arguments arguments' : List String)
    (r r' : Request) (d : Dialect) (format : OutputFormat) (level level' : Log.Level)
    (parsed : parse arguments = .request r) (parsed' : parse arguments' = .request r') (names : r'.files = r.files)
    (texts : ∀ name ∈ r.files, files'.text? name = files.text? name)
    (gives : r.Gives files ⟨d, format, level⟩) (gives' : r'.Gives files' ⟨d, format, level'⟩) :
    (∃ complete output log log', run time files arguments = .finished complete output log ∧
      run time' files' arguments' = .finished complete output log') ∨
    ∃ failure output log log', run time files arguments = .failed failure output log ∧
      run time' files' arguments' = .failed failure output log' := by
  let p : Plan := ⟨d, format, level⟩
  let p' : Plan := ⟨d, format, level'⟩
  have asks : Asks files arguments p r.files := ⟨r, parsed, (r.plan_eq_ok_iff files p).mpr gives, rfl⟩
  have asks' : Asks files' arguments' p' r.files := ⟨r', parsed', (r'.plan_eq_ok_iff files' p').mpr gives', names⟩
  have dialect : p'.dialect = p.dialect := rfl
  have printed : p'.print = p.print := Plan.print_of_level rfl
  obtain ⟨batches, hold⟩ | ⟨before, name, rest, batches, f, split, hold, fails⟩ := reads_or_fails files p r.files
  · obtain ⟨log, ran⟩ := run_of_holds time files asks hold
    obtain ⟨log', ran'⟩ := run_of_holds time' files' asks' (holds_of_level dialect texts hold)
    exact .inl ⟨_, _, log, log', ran, printed ▸ ran'⟩
  · have early : ∀ name ∈ before, files'.text? name = files.text? name :=
      fun name member => texts name (by rw [split]; exact List.mem_append_left _ member)
    have here : files'.text? name = files.text? name := texts name (by rw [split]; simp)
    obtain ⟨log, ran⟩ := run_of_fails time files asks split hold fails
    obtain ⟨log', ran'⟩ := run_of_fails time' files' asks' split (holds_of_level dialect early hold)
      (fails.of_level dialect here)
    exact .inr ⟨f, _, log, log', ran, printed ▸ ran'⟩

/-- The sample files with a settings file of their own. -/
def loudFiles : Files where
  text? := sampleFiles.text?
  settings? name :=
    if name = "loud.yaml" then some (.options [(.text "log_level", .text "debug"), (.text "output_format", .text "json")])
    else none

/-- A settings file that asks for everything to be logged, and flags that ask for errors only: what is put out in front of
a file that is missing is the same. -/
theorem run_indifferent_to_level_failed :
    let quiet : Plan := ⟨.mysql, .json, .error⟩
    ∃ output log log', run "" loudFiles ["empty.sql", "gone.sql", "--config", "loud.yaml"] =
        .failed (.fileMissing "gone.sql") output log ∧
      run "" sampleFiles (quiet.arguments ["empty.sql", "gone.sql"]) =
        .failed (.fileMissing "gone.sql") output log' := by
  intro quiet
  have parsed : parse ["empty.sql", "gone.sql", "--config", "loud.yaml"] =
      .request { files := ["empty.sql", "gone.sql"], config? := some "loud.yaml" } := by
    have flag : Argument.ofText "--config" = .option .config none := by decide
    have names : Argument.ofText "empty.sql" = .operand "empty.sql" ∧ Argument.ofText "gone.sql" = .operand "gone.sql" ∧
        Argument.ofText "loud.yaml" = .operand "loud.yaml" := by decide
    have free : Flag.config.accepts "loud.yaml" = true := by decide
    simp [parse, Argument.ofTexts, flag, names, collect, Argument.operands, List.dropWhile, Argument.isOperand, free,
      Request.store]
  have gives : Request.Gives loudFiles { files := ["empty.sql", "gone.sql"], config? := some "loud.yaml" }
      ⟨.mysql, .json, .debug⟩ :=
    ⟨_, .loaded rfl rfl rfl, rfl, rfl, rfl⟩
  have gives' := (Request.plan_eq_ok_iff sampleFiles _ _).mp (plan_request sampleFiles quiet ["empty.sql", "gone.sql"])
  have both := run_indifferent_to_level "" "" loudFiles sampleFiles _ _ _ _ .mysql .json .debug .error parsed
    (parse_arguments quiet ["empty.sql", "gone.sql"] (List.cons_ne_nil _ _)) rfl (fun _ _ => rfl) gives gives'
  obtain ⟨empty, read, -⟩ := Attempt.exists_of_any_toOption
    (x := Batch.read .mysql (String.ofList (Text.unifyLineEnds "# nothing\r\n".toList))) (p := fun _ => true)
    (by decide +kernel)
  have held : sampleFiles.Holds quiet "empty.sql" empty := ⟨_, rfl, read⟩
  have split : ["empty.sql", "gone.sql"] = ["empty.sql"] ++ "gone.sql" :: [] := rfl
  obtain ⟨log', failed⟩ := run_of_fails "" sampleFiles
    (asks_arguments sampleFiles quiet ["empty.sql", "gone.sql"] (List.cons_ne_nil _ _)) split (.cons held .nil)
    (.missing rfl)
  rcases both with ⟨_, _, _, _, -, finished⟩ | ⟨_, output, log, log', ran, ran'⟩
  · cases failed.symm.trans finished
  · cases failed.symm.trans ran'
    exact ⟨_, log, log', ran, ran'⟩

end SqlSchema.CommandLine
