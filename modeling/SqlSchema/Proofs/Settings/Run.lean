import SqlSchema.Proofs.Settings.Load

/-! Runs of steps on fresh settings. Every step is made up of calls, of which the first one that fails is the last. A run
leaves a record of the calls that passed; the flag tells what the last check of a log level in it has seen, whatever was
assigned since, and whatever failed before or after it. -/
namespace SqlSchema.Settings

/-- What can be done with settings. -/
inductive Step where
  | load (name : String) (source : Source)
  | assign (field : Field) (value : Document)
  | validate
  | validateMode
  | validateLogLevel
  | validateFormat
  | dialect

def Step.action : Step → Action Unit
  | .load name source => Settings.load name source
  | .assign field value => modify (Settings.assign field value)
  | .validate => Settings.validate
  | .validateMode => Settings.validateMode
  | .validateLogLevel => Settings.validateLogLevel
  | .validateFormat => Settings.validateFormat
  | .dialect => discard Settings.dialect

/-- Loads and validations: the steps that check everything. -/
inductive Step.Checks : Step → Prop where
  | load (name : String) (source : Source) : Checks (.load name source)
  | validate : Checks .validate

/-- The settings that a run leaves; steps that fail do not end it. -/
def reached (steps : List Step) (s : Settings) : Settings := steps.foldl (fun s step => (step.action.on s).2) s

/-! Calls. -/

inductive Call where
  | refuse (f : Fault)
  | take (name : String) (entries : List (Document × Document))
  | refuseUnknown (entries : List (Document × Document))
  | assign (field : Field) (value : Document)
  | checkMode
  | checkLevel
  | checkFormat
  | readDialect

def Call.action : Call → Action Unit
  | .refuse f => throw f
  | .take name entries => modify (taken name entries)
  | .refuseUnknown entries =>
    if Source.unknownKeys entries = [] then return () else throw (.unknownOptions (Source.unknownKeys entries))
  | .assign field value => modify (Settings.assign field value)
  | .checkMode => validateMode
  | .checkLevel => validateLogLevel
  | .checkFormat => validateFormat
  | .readDialect => discard dialect

def Step.calls : Step → List Call
  | .load _ (.other typeName) => [.refuse (.noMapping typeName)]
  | .load name (.options entries) => [.take name entries, .refuseUnknown entries, .checkMode, .checkLevel, .checkFormat]
  | .assign field value => [.assign field value]
  | .validate => [.checkMode, .checkLevel, .checkFormat]
  | .validateMode => [.checkMode]
  | .validateLogLevel => [.checkLevel]
  | .validateFormat => [.checkFormat]
  | .dialect => [.readDialect]

/-- The calls in turn, up to the first one that fails. -/
def inTurn : List Call → Action Unit
  | [] => return ()
  | call :: rest => do
    call.action
    inTurn rest

theorem inTurn_singleton (call : Call) : inTurn [call] = call.action := bind_pure_unit

theorem inTurn_checks : inTurn [.checkMode, .checkLevel, .checkFormat] = validate := by
  rw [inTurn, inTurn, inTurn_singleton]
  rfl

/-- A step does nothing but its calls. -/
theorem action_eq_inTurn (step : Step) : step.action = inTurn step.calls := by
  match step with
  | .load name (.other typeName) => exact (inTurn_singleton (.refuse _)).symm
  | .load name (.options entries) =>
    rw [Step.calls, inTurn, inTurn, inTurn_checks]
    by_cases none : Source.unknownKeys entries = [] <;> simp [Step.action, load, Call.action, none] <;> rfl
  | .validate => exact inTurn_checks.symm
  | .assign field value => exact (inTurn_singleton (.assign field value)).symm
  | .validateMode => exact (inTurn_singleton .checkMode).symm
  | .validateLogLevel => exact (inTurn_singleton .checkLevel).symm
  | .validateFormat => exact (inTurn_singleton .checkFormat).symm
  | .dialect => exact (inTurn_singleton .readDialect).symm

/-- The calls in turn that pass, each with the settings that it leaves. -/
def passed : List Call → Settings → List (Call × Settings)
  | [], _ => []
  | call :: rest, s =>
    match call.action.on s with
    | (.ok _, after) => (call, after) :: passed rest after
    | (.error _, _) => []

/-- The record of a run: all calls that passed, inside steps that failed too. -/
def record : List Step → Settings → List (Call × Settings)
  | [], _ => []
  | step :: rest, s => passed step.calls s ++ record rest (step.action.on s).2

def levelSeen? : Call × Settings → Option Document
  | (.checkLevel, s) => some s.logLevel
  | _ => none

/-- The log levels that were checked and found valid, in turn. -/
def levelsSeen (calls : List (Call × Settings)) : List Document := calls.filterMap levelSeen?

/-- The flag after log levels were seen. -/
def flagAfter (flag : Bool) (seen : List Document) : Bool :=
  seen.foldl (fun _ level => Source.isNamed Log.Level.debug.name level) flag

theorem flagAfter_iff (seen : List Document) :
    flagAfter false seen = true ↔ seen.getLast? = some (.text Log.Level.debug.name) := by
  rcases seen.eq_nil_or_concat with rfl | ⟨front, last, rfl⟩
  · simp [flagAfter]
  · simp [flagAfter, Source.isNamed_iff]

theorem flagAfter_append (flag : Bool) (before behind : List (Call × Settings)) :
    flagAfter flag (levelsSeen (before ++ behind)) = flagAfter (flagAfter flag (levelsSeen before)) (levelsSeen behind) := by
  rw [levelsSeen, List.filterMap_append, flagAfter, List.foldl_append]
  rfl

theorem flagged_debug_eq (s : Settings) : s.flagged.debug = Source.isNamed Log.Level.debug.name s.logLevel := by
  rw [Bool.eq_iff_iff, flagged_debug, Source.isNamed_iff, DebugLevel]

theorem on_discard {α : Type} (x : Action α) (s : Settings) :
    (discard x : Action PUnit).on s = ((x.on s).1.map fun _ => ⟨⟩, (x.on s).2) := by
  have parts : (discard x : Action PUnit).on s = (x >>= fun _ => pure ⟨⟩ : Action PUnit).on s := rfl
  rw [parts, on_bind]
  match x.on s with
  | (.ok a, after) => rfl
  | (.error f, after) => rfl

/-- No call but the check of the log level touches the flag. -/
theorem Call.debug_of_ne {call : Call} (other : call ≠ .checkLevel) (s : Settings) :
    (call.action.on s).2.debug = s.debug := by
  cases call with
  | refuse | take => rfl
  | refuseUnknown entries =>
    rw [Call.action]
    split <;> rfl
  | assign field => cases field <;> rfl
  | checkMode =>
    by_cases mode : s.ModeValid
    · rw [Call.action, validateMode_of_valid mode]
    · rw [Call.action, validateMode_of_invalid mode]
  | checkLevel => exact absurd rfl other
  | checkFormat =>
    by_cases format : s.FormatValid
    · rw [Call.action, validateFormat_of_valid format]
    · rw [Call.action, validateFormat_of_invalid format]
  | readDialect =>
    rw [Call.action, on_discard]
    by_cases mode : s.ModeValid
    · obtain ⟨d, named⟩ := mode
      rw [dialect_of_valid named]
    · rw [dialect_of_invalid mode]

/-- One call: the flag is what the call has seen, if it has checked a log level and passed, and stays as it was otherwise. -/
theorem debug_passed_singleton (call : Call) (s : Settings) :
    (call.action.on s).2.debug = flagAfter s.debug (levelsSeen (passed [call] s)) := by
  by_cases level : call = .checkLevel
  · subst level
    by_cases valid : s.LevelValid
    · have ran : Call.checkLevel.action.on s = (.ok (), s.flagged) := validateLogLevel_of_valid valid
      simp [passed, ran, levelsSeen, levelSeen?, flagAfter, flagged_debug_eq]
    · have ran : Call.checkLevel.action.on s = (.error (.wrongLogLevel s.logLevel), s) := validateLogLevel_of_invalid valid
      simp [passed, ran, levelsSeen, flagAfter]
  · have unseen : levelsSeen (passed [call] s) = [] := by
      rw [passed]
      split
      · cases call <;> first | rfl | exact absurd rfl level
      · rfl
    rw [unseen, Call.debug_of_ne level]
    rfl

/-- Calls in turn, by induction on the calls. -/
theorem debug_inTurn (calls : List Call) (s : Settings) :
    ((inTurn calls).on s).2.debug = flagAfter s.debug (levelsSeen (passed calls s)) := by
  induction calls generalizing s with
  | nil => rfl
  | cons call rest ih =>
    have first := debug_passed_singleton call s
    rw [inTurn, on_bind]
    rw [passed] at first ⊢
    match ran : call.action.on s with
    | (.ok (), after) =>
      simp only [ran] at first ⊢
      rw [ih after, first, ← flagAfter_append]
      rfl
    | (.error f, after) =>
      simp only [ran] at first ⊢
      exact first

/-- A whole run, by induction on its steps. -/
theorem debug_reached (steps : List Step) (s : Settings) :
    (reached steps s).debug = flagAfter s.debug (levelsSeen (record steps s)) := by
  induction steps generalizing s with
  | nil => rfl
  | cons step rest ih =>
    have here := debug_inTurn step.calls s
    rw [← action_eq_inTurn] at here
    have behind := ih (step.action.on s).2
    rw [here, ← flagAfter_append] at behind
    exact behind

/-- A load or a validation that succeeds leaves settings that are valid throughout, and a flag that fits them. -/
theorem valid_of_checks {step : Step} (checks : step.Checks) {s : Settings} (ok : (step.action.on s).1 = .ok ()) :
    (step.action.on s).2.Valid ∧ ((step.action.on s).2.debug = true ↔ (step.action.on s).2.DebugLevel) := by
  cases checks with
  | load name source =>
    match source with
    | .other typeName => cases ok
    | .options entries =>
      have ends := loaded name entries s
      obtain ⟨known, valid⟩ := ends.ok_iff.mp ok
      exact ⟨valid, ends.debug.1 ⟨known, valid.mode, valid.level⟩⟩
  | validate =>
    have ran : validate.on s = (.ok (), (Step.validate.action.on s).2) := Prod.ext ok rfl
    obtain ⟨valid, left⟩ := validate_eq_ok_iff.mp ran
    rw [left]
    exact ⟨(valid_flagged s).mpr valid, flagged_debug s⟩

/-- After every run on fresh settings, the flag is set exactly if some log level was found valid and the last one was the
debug level. If the run ends with a load or a validation that succeeds, everything is valid, there is a dialect, and the
flag tells whether the log level is the debug level. -/
theorem debug_tracks_level (steps : List Step) :
    ((reached steps {}).debug = true ↔
      (levelsSeen (record steps {})).getLast? = some (.text Log.Level.debug.name)) ∧
    ∀ before last, steps = before ++ [last] → last.Checks → (last.action.on (reached before {})).1 = .ok () →
      (reached steps {}).Valid ∧
      (∃ d : Dialect, (reached steps {}).mode = .text d.name ∧
        dialect.on (reached steps {}) = (.ok d, reached steps {})) ∧
      ((reached steps {}).debug = true ↔ (reached steps {}).DebugLevel) := by
  refine ⟨?_, ?_⟩
  · rw [debug_reached, ← flagAfter_iff]
  · rintro before last rfl checks ok
    have left : reached (before ++ [last]) {} = (last.action.on (reached before {})).2 := by
      rw [reached, List.foldl_append]
      rfl
    obtain ⟨valid, debug⟩ := valid_of_checks checks ok
    rw [left]
    obtain ⟨d, named⟩ := valid.mode
    exact ⟨valid, ⟨d, named, dialect_of_valid named⟩, debug⟩

/-- The flag outlives an assignment and a load that fails in front of the log level, and a validation ends that. -/
theorem debug_tracks_level_stale :
    let stale : List Step := [.assign .logLevel (.text "debug"), .validateLogLevel, .assign .logLevel (.text "info"),
      .load "five.yaml" (.options [(.text "mode", .integer 5)])]
    ((reached stale {}).debug = true ∧ ¬ (reached stale {}).DebugLevel) ∧
      (reached (stale ++ [.assign .mode (.text "postgres")] ++ [.validate]) {}).Valid ∧
      (reached (stale ++ [.assign .mode (.text "postgres")] ++ [.validate]) {}).debug = false := by
  intro stale
  have unlike : ∀ level : String, level ≠ "debug" → Document.text level ≠ .text Log.Level.debug.name :=
    fun level other same => other (Document.text.inj same)
  obtain ⟨valid, -, debug⟩ := (debug_tracks_level (stale ++ [.assign .mode (.text "postgres")] ++ [.validate])).2
    (stale ++ [.assign .mode (.text "postgres")]) .validate rfl .validate rfl
  refine ⟨⟨(debug_tracks_level stale).1.mpr rfl, unlike "info" (by decide)⟩, valid, ?_⟩
  exact Bool.eq_false_iff.mpr (mt debug.mp (unlike "info" (by decide)))

end SqlSchema.Settings
