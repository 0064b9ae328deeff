import SqlSchema.Document
import SqlSchema.Number.Decimal
import SqlSchema.Text.Blank
import SqlSchema.Text.LineEnd
import SqlSchema.Text.Quoted
import SqlSchema.Yaml.Plain

/-! Flat YAML files: one scalar, a list of scalars, or a mapping of scalars with one entry on each line. -/
namespace SqlSchema.Yaml
open Text

/-- What a flat file holds. Keys are scalars too, so they need not be text; none of them occurs twice. -/
inductive Flat where
  | value (d : Document)
  | entries (pairs : List (Document × Document))
deriving Repr

/-- Replaces the value of a key where the key stands, or adds both at the end. -/
def insertEntry (key value : Document) : List (Document × Document) → List (Document × Document)
  | [] => [(key, value)]
  | (k, v) :: rest =>
    if k.inspect = key.inspect then (k, value) :: rest else (k, v) :: insertEntry key value rest

/-- The entries of a mapping in which a key may be repeated; the last value counts. -/
def Flat.ofEntries (pairs : List (Document × Document)) : Flat :=
  .entries (pairs.foldl (fun found pair => insertEntry pair.1 pair.2 found) [])

def valueInBase (base : Nat) (cs : List Char) : Nat :=
  cs.foldl (fun value c => base * value + (hexDigit? c).getD 0) 0

/-- The value of an unsigned plain integer without underscores. -/
def naturalOf : List Char → Nat
  | '0' :: 'b' :: rest => valueInBase 2 rest
  | '0' :: 'x' :: rest => valueInBase 16 rest
  | '0' :: rest => valueInBase 8 rest
  | cs => (cs.splitOn ':').foldl (fun value part => 60 * value + digitsValue part) 0

/-- The value of an unsigned plain float without underscores. In base sixty only the last place has a fraction. -/
def floatOf (negative : Bool) (cs : List Char) : Binary64 :=
  let word := String.ofList cs
  if infinityWords.contains word then ⟨negative, Binary64.infinity⟩
  else if nanWords.contains word then ⟨negative, Binary64.infinity + twoPow 51⟩
  else
    let parts := cs.splitOn ':'
    let minutes := parts.dropLast.foldl (fun value part => 60 * value + digitsValue part) 0
    match Decimal.read? (parts.getLast?.getD []) with
    | some last =>
      let whole := 60 * minutes * tenPow (-last.exponent).toNat
      let x : Decimal := if minutes = 0 then last else { last with coefficient := whole + last.coefficient }
      ⟨negative, min x.magnitude Binary64.infinity⟩
    | none => ⟨negative, 0⟩

def plainValue (cs : List Char) : Document :=
  let (negative, unsigned) := takeSign (cs.filter (· != '_'))
  match plainKind cs with
  | .null => .null
  | .bool value => .bool value
  | .integer => .integer (if negative then -(naturalOf unsigned : Int) else naturalOf unsigned)
  | .float => .float (floatOf negative unsigned)
  | .timestamp | .merge | .value | .text => .text (String.ofList cs)

def unescapeLetter? : Char → Option Char
  | '0' => some '\x00'
  | 'a' => some '\x07'
  | 'b' => some '\x08'
  | 't' | '\t' => some '\t'
  | 'n' => some '\n'
  | 'v' => some '\x0b'
  | 'f' => some '\x0c'
  | 'r' => some '\r'
  | 'e' => some '\x1b'
  | ' ' => some ' '
  | '\x22' => some '\x22'
  | '/' => some '/'
  | '\\' => some '\\'
  | 'N' => some '\x85'
  | '_' => some '\xa0'
  | 'L' => some '\u2028'
  | 'P' => some '\u2029'
  | _ => none

def escapeWidth? : Char → Option Nat
  | 'x' => some 2
  | 'u' => some 4
  | 'U' => some 8
  | _ => none

/-- What the text between double quotes stands for; unknown escapes are left as they are. -/
def unescape (cs : List Char) : List Char :=
  match cs with
  | '\\' :: c :: rest =>
    match unescapeLetter? c, escapeWidth? c with
    | some meaning, _ => meaning :: unescape rest
    | none, some width => Char.ofNat (valueInBase 16 (rest.take width)) :: unescape (rest.drop width)
    | none, none => '\\' :: c :: unescape rest
  | c :: rest => c :: unescape rest
  | [] => []
termination_by cs.length
decreasing_by all_goals simp only [List.length_cons, List.length_drop]; omega

/-- Splits a line where a plain scalar ends: before a colon with a space or nothing behind it, and before a number
sign behind a space. -/
def takePlain (spaced : Bool) : List Char → List Char × List Char
  | [] => ([], [])
  | c :: rest =>
    if (c = ':' && rest.head?.all isGap) || (c = '#' && spaced) then ([], c :: rest)
    else
      let (inside, after) := takePlain (isGap c) rest
      (c :: inside, after)

/-- The scalar that a line begins with, and the rest of the line. -/
def takeScalar (cs : List Char) : Document × List Char :=
  let plain :=
    let (inside, after) := takePlain true cs
    (plainValue (trimRight inside), after)
  match cs with
  | '\x27' :: rest =>
    match (Quoting.mk '\x27' .nothing true).close rest with
    | some (inside, after) => (.text (String.ofList (undouble '\x27' inside)), after)
    | none => plain
  | '\x22' :: rest =>
    match (Quoting.mk '\x22' .any true).close rest with
    | some (inside, after) => (.text (String.ofList (unescape inside)), after)
    | none => plain
  | _ => plain

/-- What stands between brackets, cut at its commas; an empty last part is left out. -/
def flowParts (closing : Char) (cs : List Char) : List (List Char) :=
  let parts := ((cs.takeWhile (· != closing)).splitOn ',').map trim
  if parts.getLast? = some [] then parts.dropLast else parts

/-- A scalar, or a list of scalars between brackets. -/
def nodeOf (cs : List Char) : Document :=
  match trimLeft cs with
  | '[' :: rest => .list ((flowParts ']' rest).map fun part => (takeScalar part).1)
  | scalar => (takeScalar scalar).1

/-- The key and the value on a line, if it has a colon behind its first scalar. -/
def pair? (line : List Char) : Option (Document × Document) :=
  let (key, after) := takeScalar line
  match trimLeft after with
  | ':' :: rest => some (key, nodeOf rest)
  | _ => none

/-- The scalar behind a dash at the beginning of a line. -/
def item? : List Char → Option Document
  | '-' :: rest => if rest.head?.all isGap then some (nodeOf rest) else none
  | _ => none

def isContent (line : List Char) : Bool :=
  match trimLeft line with
  | [] => false
  | c :: _ => c != '#' && line != ['-', '-', '-']

def contentLines (cs : List Char) : List (List Char) :=
  (((unifyLineEnds cs).splitOn '\n').filter isContent).map trim

/-- Reads a flat file; its first line with content tells what it holds. -/
def Flat.read (text : String) : Flat :=
  match contentLines text.toList with
  | [] => .value .null
  | first :: rest =>
    match first with
    | '\x7b' :: inside => .ofEntries ((flowParts '\x7d' inside).filterMap pair?)
    | _ =>
      if (item? first).isSome then .value (.list ((first :: rest).filterMap item?))
      else if first.head? != some '[' && (pair? first).isSome then .ofEntries ((first :: rest).filterMap pair?)
      else .value (nodeOf ([' '].intercalate (first :: rest)))

end SqlSchema.Yaml
