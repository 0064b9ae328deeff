import SqlSchema.Dialect
import SqlSchema.Log
import SqlSchema.OutputFormat
import SqlSchema.Text.Digit

/-! Arguments of the command line. Options may be abbreviated as long as they are told apart, and may have their value
behind an equals sign. All files stand together. -/
namespace SqlSchema.CommandLine
open Text

inductive Flag where
  | help
  | config
  | mode
  | format
  | logLevel
deriving DecidableEq, Repr

namespace Flag

def name : Flag → String
  | .help => "--help"
  | .config => "--config"
  | .mode => "--mode"
  | .format => "--format"
  | .logLevel => "--log-level"

def all : List Flag := [.help, .config, .mode, .format, .logLevel]

/-- The values that a flag takes, if not every text is one. -/
def choices? : Flag → Option (List String)
  | .mode => some (Dialect.all.map (·.name))
  | .format => some (OutputFormat.all.map (·.name))
  | .logLevel => some (Log.Level.all.map (·.name))
  | .help | .config => none

def accepts (flag : Flag) (value : String) : Bool := flag.choices?.all (·.contains value)

/-- The flags whose names begin with the given text; only the flag itself if the text is a whole name. -/
def matching (text : String) : List Flag :=
  match all.find? (·.name == text) with
  | some flag => [flag]
  | none => all.filter (text.toList.isPrefixOf ·.name.toList)

end Flag

inductive Argument where
  | operand (text : String)
  /-- Two dashes: all that follows are operands. -/
  | separator
  | option (flag : Flag) (value? : Option String)
  | unknown
  /-- Too short to tell two flags apart. -/
  | ambiguous
  /-- A value for a flag that takes none. -/
  | overfull
deriving DecidableEq, Repr

namespace Argument

/-- A dash and a number, which is an operand. -/
def isNegativeNumber (cs : List Char) : Bool :=
  let line := if cs.getLast? = some '\n' then cs.dropLast else cs
  match line with
  | '-' :: rest =>
    let fraction := (rest.dropWhile isDigit).drop 1
    (!rest.isEmpty && rest.all isDigit)
      || ((rest.dropWhile isDigit).head? == some '.' && !fraction.isEmpty && fraction.all isDigit)
  | _ => false

def unmatched (cs : List Char) : Argument :=
  if isNegativeNumber cs || cs.contains ' ' then .operand (String.ofList cs) else .unknown

/-- An argument that begins with two dashes. -/
def ofLong (cs : List Char) : Argument :=
  let name := String.ofList (cs.takeWhile (· != '='))
  let value := (cs.dropWhile (· != '=')).tail?.map String.ofList
  match Flag.matching name with
  | [] => unmatched cs
  | [.help] => if value.isSome then .overfull else .option .help none
  | [flag] => .option flag value
  | _ => .ambiguous

/-- An argument that begins with one dash: of letters only `h` is known, and it takes no value. -/
def ofShort (cs : List Char) : Argument :=
  match cs with
  | '-' :: 'h' :: more =>
    match more.dropWhile (· == 'h') with
    | '=' :: _ | '-' :: _ => .overfull
    | _ => .option .help none
  | _ => unmatched cs

def ofText (text : String) : Argument :=
  match text.toList with
  | ['-', '-'] => .separator
  | '-' :: '-' :: more => ofLong ('-' :: '-' :: more)
  | '-' :: c :: more => ofShort ('-' :: c :: more)
  | _ => .operand text

/-- All arguments; behind a separator there are only operands. -/
def ofTexts : List String → List Argument
  | [] => []
  | text :: rest =>
    match ofText text with
    | .separator => .separator :: rest.map .operand
    | argument => argument :: ofTexts rest

/-- The operands that come next, as long as nothing else comes between them. -/
def operands : List Argument → List String
  | .operand text :: rest => text :: operands rest
  | .separator :: rest => operands rest
  | _ => []

def isOperand : Argument → Bool
  | .operand _ | .separator => true
  | _ => false

end Argument

structure Request where
  files : List String := []
  config? : Option String := none
  mode? : Option String := none
  format? : Option String := none
  logLevel? : Option String := none
deriving DecidableEq, Repr

namespace Request

/-- Stores the value of a flag; the last one counts. -/
def store (flag : Flag) (value : String) (r : Request) : Request :=
  match flag with
  | .help => r
  | .config => { r with config? := some value }
  | .mode => { r with mode? := some value }
  | .format => { r with format? := some value }
  | .logLevel => { r with logLevel? := some value }

end Request

inductive Parsed where
  | request (r : Request)
  | help
  | rejected
deriving DecidableEq, Repr

/-- Collects a request from left to right. Operands behind an option are left over once there are files. -/
def collect (r : Request) (surplus : Bool) : List Argument → Parsed
  | [] => if surplus || r.files.isEmpty then .rejected else .request r
  | .option .help _ :: _ => .help
  | .option flag (some value) :: rest =>
    if flag.accepts value then collect (r.store flag value) surplus rest else .rejected
  | .option flag none :: .operand value :: rest =>
    if flag.accepts value then collect (r.store flag value) surplus rest else .rejected
  | .option _ none :: _ => .rejected
  | .unknown :: rest => collect r true rest
  | .ambiguous :: _ | .overfull :: _ => .rejected
  | argument :: rest =>
    let run := Argument.operands (argument :: rest)
    let after := rest.dropWhile Argument.isOperand
    if r.files.isEmpty && !run.isEmpty then collect { r with files := run } surplus after
    else collect r true after
termination_by arguments => arguments.length
decreasing_by
  all_goals try have shorter := (List.dropWhile_suffix (l := rest) Argument.isOperand).length_le
  all_goals simp only [List.length_cons]; omega

/-- Ambiguous arguments are refused before any other is looked at. -/
def parse (arguments : List String) : Parsed :=
  let all := Argument.ofTexts arguments
  if all.contains .ambiguous then .rejected else collect {} false all

end SqlSchema.CommandLine
