/-! Log messages: their levels, and the lines that they become. -/
namespace SqlSchema.Log

inductive Level where
  | debug
  | info
  | warning
  | error
  | critical
deriving DecidableEq, Repr

namespace Level

def name : Level → String
  | .critical => "critical"
  | .error => "error"
  | .warning => "warning"
  | .info => "info"
  | .debug => "debug"

/-- The levels from the most severe one down. -/
def all : List Level := [.critical, .error, .warning, .info, .debug]

def ofName? (text : String) : Option Level := all.find? (·.name == text)

def rank : Level → Nat
  | .debug => 10
  | .info => 20
  | .warning => 30
  | .error => 40
  | .critical => 50

theorem ofName?_name (l : Level) : ofName? l.name = some l := by
  cases l <;> decide

theorem rank_injective (l m : Level) (same : l.rank = m.rank) : l = m := by
  cases l <;> cases m <;> simp_all [rank]

def label (l : Level) : String := l.name.toUpper

end Level

structure Entry where
  level : Level
  message : String
deriving DecidableEq, Repr

def debug (message : String) : Entry := ⟨.debug, message⟩

inductive Layout where
  /-- Tags, time, and a level of eight columns in brackets. -/
  | tagged (tags : String)
  /-- The level and the name of the source. -/
  | plain
deriving DecidableEq, Repr

def padLeft (width : Nat) (text : String) : String :=
  String.ofList (List.replicate (width - text.length) ' ') ++ text

def Layout.line (layout : Layout) (time source : String) (e : Entry) : String :=
  match layout with
  | .tagged tags => "[" ++ tags ++ " " ++ time ++ " " ++ padLeft 8 e.level.label ++ "] " ++ e.message ++ "\n"
  | .plain => e.level.label ++ ":" ++ source ++ ":" ++ e.message ++ "\n"

structure Setup where
  threshold : Level
  layout : Layout
deriving DecidableEq, Repr

def Setup.admits (s : Setup) (l : Level) : Bool := s.threshold.rank ≤ l.rank

def Setup.admitted (s : Setup) (entries : List Entry) : List Entry := entries.filter (s.admits ·.level)

/-- The setup before any other one: warnings and worse, in plain lines. -/
def Setup.initial : Setup := ⟨.warning, .plain⟩

def Setup.lines (s : Setup) (time source : String) (entries : List Entry) : String :=
  String.join ((s.admitted entries).map (s.layout.line time source))

/-- The setup for a level given by its name. A name that is none leaves the initial setup, and a warning. -/
def configure (tags level : String) : Setup × List Entry :=
  match Level.ofName? level with
  | some l => (⟨l, .tagged tags⟩, [])
  | none => (.initial, [⟨.warning, "Unknown log level " ++ level ++ ", setting info"⟩])

def rootSource : String := "root"

end SqlSchema.Log
