import SqlSchema.Proofs.Settings.Validation

/-! Loading settings from a file. A document that is neither nothing nor a mapping is refused and changes nothing. All
others are taken over first and checked afterwards, so what was there before matters for nothing but the flag, and for the
flag only if the checks do not come as far as the log level. -/
namespace SqlSchema

namespace Yaml.Flat

/-- The options of a document: the entries of a mapping, and none if the document stands for nothing. -/
inductive Holds : Flat → List (Document × Document) → Prop where
  | nothing {d : Document} (void : d.isVoid = true) : Holds (.value d) []
  | mapping (pairs : List (String × Document)) :
    Holds (.value (.mapping pairs)) (pairs.map fun pair => (.text pair.1, pair.2))
  | entries (pairs : List (Document × Document)) : Holds (.entries pairs) pairs

/-- A document that is something, but no mapping. -/
inductive Foreign : Flat → String → Prop where
  | value {d : Document} (filled : d.isVoid = false) (other : ∀ entries, d ≠ .mapping entries) :
    Foreign (.value d) d.typeName

end Yaml.Flat

namespace Settings
open Yaml

namespace Source
variable {content : Flat} {entries : List (Document × Document)} {name : String}

theorem ofFlat_of_holds (holds : content.Holds entries) : ofFlat content = .options entries := by
  cases holds with
  | nothing void => simp [ofFlat, ofDocument, void]
  | mapping pairs =>
    cases pairs with
    | nil => rfl
    | cons => rfl
  | entries => rfl

theorem ofFlat_of_foreign {typeName : String} (foreign : content.Foreign typeName) : ofFlat content = .other typeName := by
  cases foreign with
  | @value d filled other => cases d <;> simp_all [ofFlat, ofDocument]

theorem holds_or_foreign (content : Flat) : (∃ entries, content.Holds entries) ∨ ∃ typeName, content.Foreign typeName := by
  cases content with
  | entries pairs => exact .inl ⟨pairs, .entries pairs⟩
  | value d =>
    cases void : d.isVoid with
    | true => exact .inl ⟨[], .nothing void⟩
    | false =>
      by_cases mapping : ∃ pairs, d = .mapping pairs
      · obtain ⟨pairs, rfl⟩ := mapping
        exact .inl ⟨_, .mapping pairs⟩
      · exact .inr ⟨_, .value void (not_exists.mp mapping)⟩

/-- The value that the options have for a name, the first one if there are more, or the default. -/
inductive Chosen (name : String) (default : Document) : List (Document × Document) → Document → Prop where
  | absent : Chosen name default [] default
  | here (value : Document) (rest : List (Document × Document)) : Chosen name default ((.text name, value) :: rest) value
  | later {key value found : Document} {rest : List (Document × Document)} (other : key ≠ .text name)
    (behind : Chosen name default rest found) : Chosen name default ((key, value) :: rest) found

theorem isNamed_iff (name : String) (key : Document) : isNamed name key = true ↔ key = .text name := by
  cases key <;> simp [isNamed]

theorem chosen_option? (name : String) (default : Document) (entries : List (Document × Document)) :
    Chosen name default entries ((option? entries name).getD default) := by
  induction entries with
  | nil => exact .absent
  | cons entry rest ih =>
    obtain ⟨key, value⟩ := entry
    by_cases named : key = .text name
    · subst named
      have here : Chosen name default ((.text name, value) :: rest) value := .here value rest
      simpa [option?, isNamed] using here
    · have passed : isNamed name key = false := Bool.eq_false_iff.mpr (mt (isNamed_iff name key).mp named)
      simpa [option?, passed] using Chosen.later named ih

/-- Every key is the name of an option. -/
def Known (entries : List (Document × Document)) : Prop := ∀ entry ∈ entries, ∃ name ∈ optionNames, entry.1 = .text name

theorem unknownKeys_eq_nil_iff (entries : List (Document × Document)) : unknownKeys entries = [] ↔ Known entries := by
  simp [unknownKeys, Known, List.filter_eq_nil_iff, isNamed_iff]

end Source

/-- The settings after a file was taken over and before anything is checked. -/
def taken (name : String) (entries : List (Document × Document)) (s : Settings) : Settings :=
  { s with
    file := .text name
    mode := (Source.option? entries "mode").getD (.text Dialect.mysql.name)
    logLevel := (Source.option? entries "log_level").getD (.text Log.Level.info.name)
    format := (Source.option? entries "output_format").getD (.text OutputFormat.yaml.name) }

/-- What a file leaves, whatever was there before. -/
structure Taken (name : String) (entries : List (Document × Document)) (s : Settings) : Prop where
  file : s.file = .text name
  mode : Source.Chosen "mode" (.text Dialect.mysql.name) entries s.mode
  logLevel : Source.Chosen "log_level" (.text Log.Level.info.name) entries s.logLevel
  format : Source.Chosen "output_format" (.text OutputFormat.yaml.name) entries s.format

theorem load_other (name typeName : String) (s : Settings) :
    (load name (.other typeName)).on s = (.error (.noMapping typeName), s) := rfl

/-- Where loading options ends: at a key that is unknown, or where the validation does. -/
inductive Loaded (name : String) (entries : List (Document × Document)) (before : Settings) :
    Except Fault Unit → Settings → Prop where
  | unknown (unknown : ¬ Source.Known entries) :
    Loaded name entries before (.error (.unknownOptions (Source.unknownKeys entries))) (taken name entries before)
  | known {outcome : Except Fault Unit} {after : Settings} (known : Source.Known entries)
    (ended : Validated (taken name entries before) outcome after) : Loaded name entries before outcome after

theorem loaded (name : String) (entries : List (Document × Document)) (before : Settings) :
    Loaded name entries before ((load name (.options entries)).on before).1
      ((load name (.options entries)).on before).2 := by
  by_cases none : Source.unknownKeys entries = []
  · have same : (load name (.options entries)).on before = validate.on (taken name entries before) := by
      simp [load, on_bind, none, taken]
    rw [same]
    exact .known ((Source.unknownKeys_eq_nil_iff entries).mp none) (validated _)
  · have same : (load name (.options entries)).on before =
        (.error (.unknownOptions (Source.unknownKeys entries)), taken name entries before) := by
      simp [load, on_bind, none, taken]
    rw [same]
    exact .unknown (mt (Source.unknownKeys_eq_nil_iff entries).mpr none)

section Loaded
variable {name : String} {entries : List (Document × Document)} {before after : Settings} {outcome : Except Fault Unit}

theorem Loaded.unique {other : Except Fault Unit} {left : Settings} (first : Loaded name entries before outcome after)
    (second : Loaded name entries before other left) : outcome = other ∧ after = left := by
  cases first with
  | unknown unknown =>
    cases second with
    | unknown => exact ⟨rfl, rfl⟩
    | known known => exact absurd known unknown
  | known known ended =>
    cases second with
    | unknown unknown => exact absurd known unknown
    | known _ other => exact ended.unique other

/-- What was there before makes no difference, except to the flag. -/
theorem Loaded.of_other (ends : Loaded name entries before outcome after) (earlier : Settings) :
    ∃ flag, Loaded name entries earlier outcome { after with debug := flag } := by
  cases ends with
  | unknown unknown => exact ⟨earlier.debug, .unknown unknown⟩
  | known known ended =>
    obtain ⟨flag, ended⟩ := ended.of_flag earlier.debug
    exact ⟨flag, .known known ended⟩

/-- The values stay as they were taken over, however loading ends. -/
theorem Loaded.eq_taken (ends : Loaded name entries before outcome after) :
    after = { taken name entries before with debug := after.debug } := by
  cases ends with
  | unknown => rfl
  | known _ ended => cases ended <;> rfl

theorem Loaded.taken (ends : Loaded name entries before outcome after) : Taken name entries after := by
  rw [ends.eq_taken]
  exact ⟨rfl, Source.chosen_option? .., Source.chosen_option? .., Source.chosen_option? ..⟩

theorem Loaded.ok_iff (ends : Loaded name entries before outcome after) :
    outcome = .ok () ↔ Source.Known entries ∧ after.Valid := by
  cases ends with
  | unknown unknown => simp [unknown]
  | known known ended =>
    have same : after.Valid ↔ (Settings.taken name entries before).Valid := by
      cases ended with
      | wrongMode | wrongLevel => rfl
      | wrongFormat | passed => exact valid_flagged _
    rw [ended.ok_iff, same]
    exact ⟨fun valid => ⟨known, valid⟩, fun both => both.2⟩

/-- The flag follows the log level exactly if the checks before that of the format pass. -/
theorem Loaded.debug (ends : Loaded name entries before outcome after) :
    (Source.Known entries ∧ after.ModeValid ∧ after.LevelValid → (after.debug = true ↔ after.DebugLevel)) ∧
      (¬ (Source.Known entries ∧ after.ModeValid ∧ after.LevelValid) → after.debug = before.debug) := by
  cases ends with
  | unknown unknown => exact ⟨fun passed => absurd passed.1 unknown, fun _ => rfl⟩
  | known known ended =>
    by_cases passed : (Settings.taken name entries before).ModeValid ∧ (Settings.taken name entries before).LevelValid
    · cases ended.eq_flagged passed.1 passed.2
      exact ⟨fun _ => flagged_debug _, fun failed => absurd ⟨known, passed⟩ failed⟩
    · cases ended.eq_self passed
      exact ⟨fun both => absurd both.2 passed, fun _ => rfl⟩

end Loaded

/-- Loading is refused for a document that is neither nothing nor a mapping, and nothing is changed. Any other document is
taken over: the file and the three values are those of the document or the defaults, whatever was there before and however
loading ends. It succeeds exactly if no key is unknown and the three values are valid. The flag tells whether the log level
is the debug level once that level is checked, and is left alone otherwise. -/
theorem load_exact (before : Settings) (name : String) (content : Flat) :
    ((∃ entries, content.Holds entries) ∨ ∃ typeName, content.Foreign typeName) ∧
    ∃ outcome after, (load name (.ofFlat content)).on before = (outcome, after) ∧
      (∀ typeName, content.Foreign typeName → outcome = .error (.noMapping typeName) ∧ after = before) ∧
      ∀ entries, content.Holds entries →
        Taken name entries after ∧
        (∀ earlier, ∃ flag, (load name (.ofFlat content)).on earlier = (outcome, { after with debug := flag })) ∧
        (outcome = .ok () ↔ Source.Known entries ∧ after.Valid) ∧
        (Source.Known entries ∧ after.ModeValid ∧ after.LevelValid → (after.debug = true ↔ after.DebugLevel)) ∧
        (¬ (Source.Known entries ∧ after.ModeValid ∧ after.LevelValid) → after.debug = before.debug) := by
  refine ⟨Source.holds_or_foreign content, ((load name (.ofFlat content)).on before).1,
    ((load name (.ofFlat content)).on before).2, rfl, fun typeName foreign => ?_, fun entries holds => ?_⟩
  · rw [Source.ofFlat_of_foreign foreign, load_other]
    exact ⟨rfl, rfl⟩
  · rw [Source.ofFlat_of_holds holds]
    have ends := loaded name entries before
    refine ⟨ends.taken, fun earlier => ?_, ends.ok_iff, ends.debug⟩
    obtain ⟨flag, again⟩ := ends.of_other earlier
    obtain ⟨same, left⟩ := (loaded name entries earlier).unique again
    exact ⟨flag, Prod.ext same left⟩

/-- The format is wrong, and the flag is set all the same; a list changes nothing. -/
theorem load_exact_late :
    (∃ after, (load "late.yaml" (.ofFlat (.entries [(.text "output_format", .text "xml"), (.text "mode", .text "postgres"),
        (.text "log_level", .text "debug")]))).on {} = (.error (.wrongFormat (.text "xml")), after) ∧
      after.ModeValid ∧ after.LevelValid ∧ ¬ after.FormatValid ∧ after.debug = true) ∧
    (load "list.yaml" (.ofFlat (.value (.list [.text "mode", .text "postgres"])))).on { mode := .null } =
      (.error (.noMapping "list"), { mode := .null }) := by
  obtain ⟨-, outcome, after, ran, -, held⟩ := load_exact {} "late.yaml" (.entries [(.text "output_format", .text "xml"),
    (.text "mode", .text "postgres"), (.text "log_level", .text "debug")])
  obtain ⟨-, -, ok, flag, -⟩ := held _ (.entries _)
  obtain ⟨-, refused, left, last, foreign, -⟩ := load_exact { mode := .null } "list.yaml"
    (.value (.list [.text "mode", .text "postgres"]))
  obtain ⟨rfl, rfl⟩ := foreign "list" (.value rfl fun _ => Document.noConfusion)
  have known : Source.Known [(.text "output_format", .text "xml"), (.text "mode", .text "postgres"),
      (.text "log_level", .text "debug")] := by
    simp [Source.Known, Source.optionNames]
  have mode : after.ModeValid := by
    cases ran
    exact ⟨.postgres, rfl⟩
  have level : after.LevelValid := by
    cases ran
    exact ⟨.debug, rfl⟩
  have debug : after.DebugLevel := by
    cases ran
    rfl
  have wrong : outcome = .error (.wrongFormat (.text "xml")) := by
    cases ran
    rfl
  refine ⟨⟨after, wrong ▸ ran, mode, level, fun format => ?_, (flag ⟨known, mode, level⟩).mpr debug⟩, last⟩
  cases wrong.symm.trans (ok.mpr ⟨known, mode, level, format⟩)

end Settings
end SqlSchema
