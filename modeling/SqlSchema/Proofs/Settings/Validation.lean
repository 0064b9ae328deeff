import SqlSchema.Settings

/-! Validation of settings: what each check accepts, where a validation ends, and what it leaves behind. Only the check of
the log level changes anything, and only the flag. -/
namespace SqlSchema.Settings

/-- How an action ends, and the settings that it leaves. -/
def Action.on {α : Type} (x : Action α) (s : Settings) : Except Fault α × Settings := x.run s

section Actions
variable {α β : Type} (s : Settings)

theorem on_bind (x : Action α) (next : α → Action β) :
    (x >>= next).on s = match x.on s with
      | (.ok a, after) => (next a).on after
      | (.error f, after) => (.error f, after) := by
  have parts : (x >>= next).on s = (ExceptT.bindCont next (x.on s).1).run (x.on s).2 := rfl
  rw [parts]
  match x.on s with
  | (.ok a, after) => rfl
  | (.error f, after) => rfl

theorem bind_of_ok {x : Action α} {a : α} {after : Settings} (ends : x.on s = (.ok a, after)) (next : α → Action β) :
    (x >>= next).on s = (next a).on after := by
  rw [on_bind, ends]

theorem bind_of_error {x : Action α} {f : Fault} {after : Settings} (ends : x.on s = (.error f, after))
    (next : α → Action β) : (x >>= next).on s = (.error f, after) := by
  rw [on_bind, ends]

@[simp] theorem on_pure (a : α) : (pure a : Action α).on s = (.ok a, s) := rfl

@[simp] theorem on_throw (f : Fault) : (throw f : Action α).on s = (.error f, s) := rfl

@[simp] theorem on_get : (get : Action Settings).on s = (.ok s, s) := rfl

@[simp] theorem on_set (after : Settings) : (set after : Action PUnit).on s = (.ok ⟨⟩, after) := rfl

@[simp] theorem on_modify (change : Settings → Settings) :
    (modify change : Action PUnit).on s = (.ok ⟨⟩, change s) := rfl

end Actions

/-! What is valid. Each of the three values has to be the name of something. -/

theorem find?_name_eq_some_iff {α : Type} {all : List α} {name : α → String} (complete : ∀ a, a ∈ all)
    (injective : Function.Injective name) (text : String) (a : α) :
    all.find? (name · == text) = some a ↔ text = name a := by
  constructor
  · intro found
    exact (beq_iff_eq.mp (List.find?_some found :)).symm
  · rintro rfl
    obtain ⟨b, found⟩ : ∃ b, all.find? (name · == name a) = some b :=
      Option.isSome_iff_exists.mp (List.find?_isSome.mpr ⟨a, complete a, beq_self_eq_true _⟩)
    rw [found, injective (beq_iff_eq.mp (List.find?_some found :))]

/-- A choice among names, where the value is a text. -/
theorem named_eq_some_iff {α : Type} {ofName? : String → Option α} {name : α → String}
    (exact : ∀ text a, ofName? text = some a ↔ text = name a) (value : Document) (a : α) :
    (match value with
      | .text text => ofName? text
      | _ => none) = some a ↔ value = .text (name a) := by
  cases value <;> simp [exact]

def ModeValid (s : Settings) : Prop := ∃ d : Dialect, s.mode = .text d.name

def LevelValid (s : Settings) : Prop := ∃ l : Log.Level, s.logLevel = .text l.name

def FormatValid (s : Settings) : Prop := ∃ f : OutputFormat, s.format = .text f.name

structure Valid (s : Settings) : Prop where
  mode : s.ModeValid
  level : s.LevelValid
  format : s.FormatValid

def DebugLevel (s : Settings) : Prop := s.logLevel = .text Log.Level.debug.name

theorem dialect?_eq_some_iff (s : Settings) (d : Dialect) : s.dialect? = some d ↔ s.mode = .text d.name :=
  named_eq_some_iff Dialect.ofName?_eq_some_iff s.mode d

theorem level?_eq_some_iff (s : Settings) (l : Log.Level) : s.level? = some l ↔ s.logLevel = .text l.name :=
  named_eq_some_iff (find?_name_eq_some_iff (fun l => by cases l <;> decide) fun l m => by cases l <;> cases m <;> decide)
    s.logLevel l

theorem format?_eq_some_iff (s : Settings) (f : OutputFormat) : s.format? = some f ↔ s.format = .text f.name :=
  named_eq_some_iff (find?_name_eq_some_iff (fun f => by cases f <;> decide) fun f g => by cases f <;> cases g <;> decide)
    s.format f

theorem dialect?_eq_none_iff (s : Settings) : s.dialect? = none ↔ ¬ s.ModeValid := by
  simp [ModeValid, ← dialect?_eq_some_iff, Option.eq_none_iff_forall_ne_some]

theorem level?_eq_none_iff (s : Settings) : s.level? = none ↔ ¬ s.LevelValid := by
  simp [LevelValid, ← level?_eq_some_iff, Option.eq_none_iff_forall_ne_some]

theorem format?_eq_none_iff (s : Settings) : s.format? = none ↔ ¬ s.FormatValid := by
  simp [FormatValid, ← format?_eq_some_iff, Option.eq_none_iff_forall_ne_some]

/-- The settings with the flag that belongs to their log level. -/
def flagged (s : Settings) : Settings := { s with debug := s.level? == some .debug }

@[simp] theorem flagged_logLevel (s : Settings) : s.flagged.logLevel = s.logLevel := rfl

theorem valid_flagged (s : Settings) : s.flagged.Valid ↔ s.Valid :=
  ⟨fun ⟨mode, level, format⟩ => ⟨mode, level, format⟩, fun ⟨mode, level, format⟩ => ⟨mode, level, format⟩⟩

theorem flagged_debug (s : Settings) : s.flagged.debug = true ↔ s.DebugLevel := by
  rw [flagged, beq_iff_eq, level?_eq_some_iff, DebugLevel]

/-! The checks. Each of them passes exactly if the value is valid. -/

/-- The fault of a mode that is not valid. -/
def modeFault : Document → Fault
  | .text mode => .wrongMode mode
  | mode => .modeNotText mode.typeName

section Checks
variable {s : Settings}

theorem dialect_of_valid {d : Dialect} (mode : s.mode = .text d.name) : dialect.on s = (.ok d, s) := by
  have known := (dialect?_eq_some_iff s d).mpr mode
  rw [dialect, on_bind]
  simp [known]

theorem dialect_of_invalid (mode : ¬ s.ModeValid) : dialect.on s = (.error (.noDialect s.mode), s) := by
  have unknown := (dialect?_eq_none_iff s).mpr mode
  rw [dialect, on_bind]
  simp [unknown]

theorem validateMode_of_valid (mode : s.ModeValid) : validateMode.on s = (.ok (), s) := by
  obtain ⟨d, named⟩ := mode
  have known := (dialect?_eq_some_iff s d).mpr named
  rw [validateMode, on_bind]
  simp [named, known]

theorem validateMode_of_invalid (mode : ¬ s.ModeValid) : validateMode.on s = (.error (modeFault s.mode), s) := by
  have unknown := (dialect?_eq_none_iff s).mpr mode
  rw [validateMode, on_bind]
  cases held : s.mode <;> simp [held, unknown, modeFault]

theorem validateLogLevel_of_valid (level : s.LevelValid) : validateLogLevel.on s = (.ok (), s.flagged) := by
  obtain ⟨l, named⟩ := level
  have known := (level?_eq_some_iff s l).mpr named
  rw [validateLogLevel, on_bind]
  simp [known, flagged]

theorem validateLogLevel_of_invalid (level : ¬ s.LevelValid) :
    validateLogLevel.on s = (.error (.wrongLogLevel s.logLevel), s) := by
  have unknown := (level?_eq_none_iff s).mpr level
  rw [validateLogLevel, on_bind]
  simp [unknown]

theorem validateFormat_of_valid (format : s.FormatValid) : validateFormat.on s = (.ok (), s) := by
  obtain ⟨f, named⟩ := format
  have known := (format?_eq_some_iff s f).mpr named
  rw [validateFormat, on_bind]
  simp [known]

theorem validateFormat_of_invalid (format : ¬ s.FormatValid) :
    validateFormat.on s = (.error (.wrongFormat s.format), s) := by
  have unknown := (format?_eq_none_iff s).mpr format
  rw [validateFormat, on_bind]
  simp [unknown]

end Checks

/-- Where a validation ends: at the first value that is not valid, or behind the last one. The flag follows the log level
as soon as that is checked. -/
inductive Validated (s : Settings) : Except Fault Unit → Settings → Prop where
  | wrongMode (mode : ¬ s.ModeValid) : Validated s (.error (modeFault s.mode)) s
  | wrongLevel (mode : s.ModeValid) (level : ¬ s.LevelValid) : Validated s (.error (.wrongLogLevel s.logLevel)) s
  | wrongFormat (mode : s.ModeValid) (level : s.LevelValid) (format : ¬ s.FormatValid) :
    Validated s (.error (.wrongFormat s.format)) s.flagged
  | passed (mode : s.ModeValid) (level : s.LevelValid) (format : s.FormatValid) : Validated s (.ok ()) s.flagged

theorem validated (s : Settings) : Validated s (validate.on s).1 (validate.on s).2 := by
  by_cases mode : s.ModeValid
  · rw [validate, bind_of_ok s (validateMode_of_valid mode)]
    by_cases level : s.LevelValid
    · rw [bind_of_ok s (validateLogLevel_of_valid level)]
      have same : s.flagged.FormatValid ↔ s.FormatValid := Iff.rfl
      by_cases format : s.FormatValid
      · rw [validateFormat_of_valid (same.mpr format)]
        exact .passed mode level format
      · rw [validateFormat_of_invalid (mt same.mp format)]
        exact .wrongFormat mode level format
    · rw [bind_of_error s (validateLogLevel_of_invalid level)]
      exact .wrongLevel mode level
  · rw [validate, bind_of_error s (validateMode_of_invalid mode)]
    exact .wrongMode mode

section Validated
variable {s after : Settings} {outcome : Except Fault Unit}

theorem Validated.unique {other : Except Fault Unit} {left : Settings} (first : Validated s outcome after)
    (second : Validated s other left) : outcome = other ∧ after = left := by
  cases first <;> cases second <;> first | contradiction | exact ⟨rfl, rfl⟩

/-- The flag that was there before makes no difference to what is found. -/
theorem Validated.of_flag (flag : Bool) (ended : Validated s outcome after) :
    ∃ left, Validated { s with debug := flag } outcome { after with debug := left } := by
  cases ended with
  | wrongMode mode => exact ⟨flag, .wrongMode mode⟩
  | wrongLevel mode level => exact ⟨flag, .wrongLevel mode level⟩
  | wrongFormat mode level format => exact ⟨s.flagged.debug, .wrongFormat mode level format⟩
  | passed mode level format => exact ⟨s.flagged.debug, .passed mode level format⟩

theorem Validated.ok_iff (ended : Validated s outcome after) :
    outcome = .ok () ↔ s.Valid := by
  cases ended with
  | wrongMode mode => simpa using fun valid : s.Valid => mode valid.mode
  | wrongLevel _ level => simpa using fun valid : s.Valid => level valid.level
  | wrongFormat _ _ format => simpa using fun valid : s.Valid => format valid.format
  | passed mode level format => simpa using Valid.mk mode level format

theorem Validated.eq_flagged (ended : Validated s outcome after) (mode : s.ModeValid)
    (level : s.LevelValid) : after = s.flagged := by
  cases ended with
  | wrongMode wrong => exact absurd mode wrong
  | wrongLevel _ wrong => exact absurd level wrong
  | wrongFormat => rfl
  | passed => rfl

theorem Validated.eq_self (ended : Validated s outcome after) (invalid : ¬ (s.ModeValid ∧ s.LevelValid)) :
    after = s := by
  cases ended with
  | wrongMode => rfl
  | wrongLevel => rfl
  | wrongFormat mode level => exact absurd ⟨mode, level⟩ invalid
  | passed mode level => exact absurd ⟨mode, level⟩ invalid

theorem validate_eq_ok_iff : validate.on s = (.ok (), after) ↔ s.Valid ∧ after = s.flagged := by
  have ended := validated s
  constructor
  · intro ran
    rw [ran] at ended
    have valid := ended.ok_iff.mp rfl
    exact ⟨valid, ended.eq_flagged valid.mode valid.level⟩
  · rintro ⟨valid, rfl⟩
    exact Prod.ext (ended.ok_iff.mpr valid) (ended.eq_flagged valid.mode valid.level)

end Validated

end SqlSchema.Settings
