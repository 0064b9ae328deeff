import Std.Time
import SqlSchema.CommandLine.Run

/-! The program: reads the files that its arguments name, writes what they define to the standard output, and logs to
the standard error. -/
namespace SqlSchema.CommandLine

def readFiles (names : List String) : IO (List (String × String)) := do
  let read (name : String) : IO (Option (String × String)) := do
    try
      let content ← IO.FS.readFile name
      return some (name, content)
    catch _ => return none
  return (← names.mapM read).filterMap id

def filesOf (r : Request) : IO Files := do
  let contents ← readFiles (r.files ++ r.settingsFile?.toList)
  let text? (name : String) := contents.lookup name
  return { text?, settings? := fun name => (text? name).map fun content => .ofFlat (Yaml.Flat.read content) }

def now : IO String := do
  let time ← Std.Time.PlainDateTime.now
  return time.format "uuuu-MM-dd HH:mm:ss,SSS"

def usage : String :=
  "usage: sqlschema [-h] [--config CONFIG] [--mode \x7bmysql,postgres\x7d] [--format \x7byaml,json\x7d] " ++
    "[--log-level \x7bcritical,error,warning,info,debug\x7d] files [files ...]\n"

end SqlSchema.CommandLine

open SqlSchema CommandLine

def main (arguments : List String) : IO UInt32 := do
  let files ← match parse arguments with
    | .request r => filesOf r
    | .help | .rejected => pure ⟨fun _ => none, fun _ => none⟩
  let outcome := run (← now) files arguments
  match outcome with
  | .help => IO.print usage
  | .rejected => IO.eprint usage
  | .failed f output log =>
    IO.print output
    IO.eprint (log ++ f.message ++ "\n")
  | .finished _ output log =>
    IO.print output
    IO.eprint log
  return outcome.code.toUInt32
