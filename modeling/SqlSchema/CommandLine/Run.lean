import SqlSchema.CommandLine.Argument
import SqlSchema.Report
import SqlSchema.Settings

/-! Runs of the program. A run reads its settings, then file by file; a rejected statement ends its file only, anything
else that fails ends the run, and what was put out before stays. -/
namespace SqlSchema.CommandLine

/-- The files that a run can read: as text, and as settings. -/
structure Files where
  text? : String → Option String
  settings? : String → Option Settings.Source

inductive Failure where
  | fileMissing (name : String)
  | settings (f : Settings.Fault)
  | interrupted (i : Interruption)
deriving Repr

def Failure.message : Failure → String
  | .fileMissing name => "[Errno 2] No such file or directory: " ++ Text.inspect name
  | .settings f => f.message
  | .interrupted i => i.message

structure Plan where
  dialect : Dialect
  format : OutputFormat
  level : Log.Level
deriving DecidableEq, Repr

/-- Whether every statement that was read is logged by itself. -/
def Plan.listed (p : Plan) : Bool := p.level = .debug

namespace Request

/-- The settings that a request asks for: those of its settings file, unless an option says otherwise. -/
def settings (r : Request) (source : Option (String × Settings.Source)) : Settings.Action Plan := do
  if let some (name, content) := source then Settings.load name content
  let given (field : Settings.Field) (value : Option String) : Settings.Action Unit :=
    match value with
    | some text => modify (Settings.assign field (.text text))
    | none => return ()
  given .mode r.mode?
  given .format r.format?
  given .logLevel r.logLevel?
  Settings.validate
  let s ← get
  return { dialect := s.dialect?.getD .mysql
           format := s.format?.getD .yaml
           level := s.level?.getD .info }

/-- The settings file of a request; an empty name stands for none. -/
def settingsFile? (r : Request) : Option String := r.config?.filter (!·.isEmpty)

def plan (files : Files) (r : Request) : Except Failure Plan := do
  let source ← match r.settingsFile? with
    | none => pure none
    | some name =>
      match files.settings? name with
      | some content => pure (some (name, content))
      | none => throw (.fileMissing name)
  ((settings r source).run {}).1.mapError .settings

end Request

/-- The report on the files of a run, up to the first one that cannot be read to its end. -/
def report (files : Files) (p : Plan) : List String → Report × Option Failure
  | [] => ({}, none)
  | name :: rest =>
    match files.text? name with
    | none => ({}, some (.fileMissing name))
    | some content =>
      match Report.ofFile p.dialect p.format p.listed name content with
      | .error i => ({}, some (.interrupted i))
      | .ok first =>
        let (more, failure) := report files p rest
        (first.append more, failure)

inductive Outcome where
  | help
  | rejected
  | failed (f : Failure) (output log : String)
  | finished (complete : Bool) (output log : String)
deriving Repr

/-- The code that a run ends with. -/
def Outcome.code : Outcome → Nat
  | .help => 0
  | .rejected => 2
  | .failed _ _ _ => 1
  | .finished complete _ _ => if complete then 0 else 1

def tag : String := "ddl_schema"

/-- The log of a run; `time` stands for the time in its lines. -/
def logText (time : String) (p : Plan) (r : Report) : String :=
  let (setup, entries) := Log.configure tag p.level.name
  setup.lines time tag (entries ++ r.log)

def run (time : String) (files : Files) (arguments : List String) : Outcome :=
  match parse arguments with
  | .help => .help
  | .rejected => .rejected
  | .request r =>
    match r.plan files with
    | .error f => .failed f "" ""
    | .ok p =>
      let (result, failure) := report files p r.files
      let log := logText time p result
      match failure with
      | some f => .failed f result.output log
      | none => .finished result.complete result.output log

end SqlSchema.CommandLine
