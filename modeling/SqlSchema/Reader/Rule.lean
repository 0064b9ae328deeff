import SqlSchema.Reader.Shape

/-! Rules that read a text from left to right. A rule is committed to the first alternative that fits and to as many
repetitions as it can have; it never comes back for another try. When nothing fits, the failure that got furthest is
reported. -/
namespace SqlSchema.Reader

inductive Expectation where
  | shape (s : Shape)
  | keyword (word : String)
  /-- The keyword is there, but a word character follows it. -/
  | keywordEnd (word : String)
  /-- The keyword is there, but a word character precedes it. -/
  | keywordStart (word : String)
  /-- Something is there that must not be. -/
  | absence (s : Shape)
deriving Repr

def Expectation.message : Expectation → String
  | .shape s => "Expected " ++ s.text
  | .keyword word => "Expected CaselessKeyword '" ++ word ++ "'"
  | .keywordEnd word =>
    "Expected CaselessKeyword '" ++ word ++ "', was immediately followed by keyword character"
  | .keywordStart word =>
    "Expected CaselessKeyword '" ++ word ++ "', keyword was immediately preceded by keyword character"
  | .absence s => "Found unwanted token, " ++ s.text

structure Failure where
  position : Nat
  expectation : Expectation
deriving Repr

/-- A place in a text: how many characters lie before it, the last one of them, and all behind it. -/
structure Cursor where
  position : Nat
  /-- The length of the whole text. -/
  size : Nat
  previous : Option Char
  rest : List Char
deriving Repr

namespace Cursor

def start (cs : List Char) : Cursor := ⟨0, cs.length, none, cs⟩

/-- The place `n` characters further; it may lie behind the end of the text. -/
def advance (c : Cursor) (n : Nat) : Cursor :=
  { c with position := c.position + n
           previous := (c.rest.take n).getLast? <|> c.previous
           rest := c.rest.drop n }

/-- The characters that rules skip before they look. -/
def isGap (c : Char) : Bool := c == ' ' || c == '\n' || c == '\t' || c == '\r'

def skipGap (c : Cursor) : Cursor := c.advance (c.rest.takeWhile isGap).length

theorem advance_shorter (c : Cursor) (n : Nat) (positive : 0 < n) (more : c.rest ≠ []) :
    (c.advance n).rest.length < c.rest.length := by
  have := List.length_pos_iff.mpr more
  simp only [advance, List.length_drop]
  omega

theorem skipGap_le (c : Cursor) : c.skipGap.rest.length ≤ c.rest.length := by
  simp [skipGap, advance]

end Cursor

/-- The result of a rule: a value and the place behind what was read. -/
abbrev Outcome (α : Type) := Except Failure (α × Cursor)

/-- A rule, and whether a gap in front of it is skipped first. -/
structure Rule (α : Type) where
  skips : Bool
  run : Cursor → Outcome α

namespace Rule

variable {α β : Type}

def origin (r : Rule α) (c : Cursor) : Cursor := if r.skips then c.skipGap else c

def read (r : Rule α) (c : Cursor) : Outcome α := r.run (r.origin c)

/-- A sequence skips a gap exactly if its first rule does. -/
instance : Monad Rule where
  pure a := ⟨false, fun c => .ok (a, c)⟩
  bind r next := ⟨r.skips, fun c =>
    match r.run c with
    | .ok (a, after) => (next a).read after
    | .error failure => .error failure⟩

def fail (position : Nat) (expectation : Expectation) : Outcome α := .error ⟨position, expectation⟩

/-- A rule that may be missing. If it fails, only the gap in front of it is skipped. -/
def optional (r : Rule α) : Rule (Option α) where
  skips := r.skips
  run c :=
    match r.run c with
    | .ok (a, after) => .ok (some a, after)
    | .error _ => .ok (none, c)

def repeatFrom (r : Rule α) (c : Cursor) : List α × Cursor :=
  match r.read c with
  | .ok (a, after) =>
    if after.rest.length < c.rest.length then
      let (more, last) := repeatFrom r after
      (a :: more, last)
    else ([a], after)
  | .error _ => ([], c)
termination_by c.rest.length

def many (r : Rule α) : Rule (List α) where
  skips := r.skips
  run c := .ok (repeatFrom r c)

/-- The failure that got furthest, the earliest one of several. -/
def furthest : Failure → List Failure → Failure
  | best, [] => best
  | best, failure :: more => furthest (if best.position < failure.position then failure else best) more

def firstOf (c : Cursor) : List (Rule α) → Except (List Failure) (α × Cursor)
  | [] => .error []
  | r :: more =>
    match r.read c with
    | .ok found => .ok found
    | .error failure => (firstOf c more).mapError (failure :: ·)

/-- The first of several rules that fits. If none gets further than to where they started, their common name is
reported. -/
def choice (name : Shape) (rules : List (Rule α)) : Rule α where
  skips := rules.all (·.skips)
  run c :=
    match firstOf c rules with
    | .ok found => .ok found
    | .error [] => fail c.position (.shape name)
    | .error (first :: more) =>
      let best := furthest first more
      if best.position = c.position then fail c.position (.shape name) else .error best

/-- Reads nothing, but fails where the given rule would fit. -/
def without (name : Shape) (r : Rule α) : Rule Unit where
  skips := false
  run c :=
    match r.read c with
    | .ok _ => fail c.position (.absence name)
    | .error _ => .ok ((), c)

/-- One or more of a rule with commas between them. -/
def listOf (comma : Rule Unit) (r : Rule α) : Rule (List α) := do
  let first ← r
  let more ← many do
    comma
    r
  return first :: more

def endOfText : Rule Unit where
  skips := true
  run c :=
    if c.position < c.size then fail c.position (.shape (.named "end of text")) else .ok ((), c)

def readAll (r : Rule α) (cs : List Char) : Except Failure α :=
  let whole : Rule α := do
    let value ← r
    endOfText
    return value
  (whole.read (Cursor.start cs)).map (·.1)

end Rule
end SqlSchema.Reader
