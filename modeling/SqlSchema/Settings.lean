import SqlSchema.Dialect
import SqlSchema.Log
import SqlSchema.OutputFormat
import SqlSchema.Yaml.Flat

/-! Settings. They hold whatever a file or a caller put into them; only validation tells whether it makes sense. Every
step keeps what was assigned before it failed. -/
namespace SqlSchema

structure Settings where
  file : Document := .text ""
  mode : Document := .text Dialect.mysql.name
  logLevel : Document := .text Log.Level.info.name
  /-- Whether the level that was validated last is the debug level. -/
  debug : Bool := false
  format : Document := .text OutputFormat.yaml.name
deriving Repr

namespace Settings

inductive Fault where
  /-- The file holds something of the given type and no options. -/
  | noMapping (typeName : String)
  | unknownOptions (names : List Document)
  | modeNotText (typeName : String)
  | wrongMode (mode : String)
  | wrongLogLevel (level : Document)
  | wrongFormat (format : Document)
  | noDialect (mode : Document)
deriving Repr

def Fault.message : Fault → String
  | .noMapping typeName => "settings file should contain a mapping and not " ++ typeName
  | .unknownOptions names => "Unsupported config options: " ++ (Document.list names).inspect
  | .modeNotText typeName => "mode should be string and not " ++ typeName
  | .wrongMode mode =>
    "wrong mode " ++ mode ++ ", should be one of " ++
      (Document.list (Dialect.all.map fun d => .text d.name)).inspect
  | .wrongLogLevel level => "wrong log level " ++ level.display
  | .wrongFormat format => "wrong output format " ++ format.display
  | .noDialect mode => mode.inspect ++ " is not a valid GeneratorMode"

inductive Source where
  | options (entries : List (Document × Document))
  | other (typeName : String)
deriving Repr

/-- A document that stands for nothing holds no options. -/
def Source.ofDocument (document : Document) : Source :=
  if document.isVoid then .options []
  else
    match document with
    | .mapping entries => .options (entries.map fun (key, value) => (.text key, value))
    | _ => .other document.typeName

def Source.ofFlat : Yaml.Flat → Source
  | .value document => ofDocument document
  | .entries pairs => .options pairs

namespace Source

def isNamed (name : String) : Document → Bool
  | .text key => key == name
  | _ => false

def option? (entries : List (Document × Document)) (name : String) : Option Document :=
  (entries.find? (isNamed name ·.1)).map (·.2)

def optionNames : List String := ["mode", "log_level", "output_format"]

def unknownKeys (entries : List (Document × Document)) : List Document :=
  (entries.map (·.1)).filter fun key => !optionNames.any (isNamed · key)

end Source

/-- A step that changes settings and may fail; what it changed before stays. -/
abbrev Action (α : Type) := ExceptT Fault (StateM Settings) α

def dialect? (s : Settings) : Option Dialect :=
  match s.mode with
  | .text mode => Dialect.ofName? mode
  | _ => none

def level? (s : Settings) : Option Log.Level :=
  match s.logLevel with
  | .text level => Log.Level.ofName? level
  | _ => none

def format? (s : Settings) : Option OutputFormat :=
  match s.format with
  | .text format => OutputFormat.ofName? format
  | _ => none

def dialect : Action Dialect := do
  let s ← get
  match s.dialect? with
  | some d => return d
  | none => throw (.noDialect s.mode)

def validateMode : Action Unit := do
  let s ← get
  match s.mode with
  | .text mode => if s.dialect?.isNone then throw (.wrongMode mode)
  | mode => throw (.modeNotText mode.typeName)

def validateLogLevel : Action Unit := do
  let s ← get
  match s.level? with
  | some level => set { s with debug := level == Log.Level.debug }
  | none => throw (.wrongLogLevel s.logLevel)

def validateFormat : Action Unit := do
  let s ← get
  if s.format?.isNone then throw (.wrongFormat s.format)

def validate : Action Unit := do
  validateMode
  validateLogLevel
  validateFormat

/-- Takes over what a file of the given name holds. Options that the file does not have get their defaults, whatever
they were before. -/
def load (name : String) (source : Source) : Action Unit :=
  match source with
  | .other typeName => throw (.noMapping typeName)
  | .options entries => do
    let initial : Settings := {}
    modify fun s => { s with
      file := .text name
      mode := (Source.option? entries "mode").getD initial.mode
      logLevel := (Source.option? entries "log_level").getD initial.logLevel
      format := (Source.option? entries "output_format").getD initial.format }
    let unknown := Source.unknownKeys entries
    if !unknown.isEmpty then throw (.unknownOptions unknown)
    validate

inductive Field where
  | file
  | mode
  | logLevel
  | format
deriving DecidableEq, Repr

def assign (field : Field) (value : Document) (s : Settings) : Settings :=
  match field with
  | .file => { s with file := value }
  | .mode => { s with mode := value }
  | .logLevel => { s with logLevel := value }
  | .format => { s with format := value }

end Settings
end SqlSchema
