import SqlSchema.Dialect
import SqlSchema.Reader.Rule
import SqlSchema.Text.Hex
import SqlSchema.Text.Quoted
import SqlSchema.Text.Upper

/-! The smallest rules: keywords, marks, words, and names and strings between quotes. -/
namespace SqlSchema.Reader
open Text

namespace Rule

/-- Characters that must not touch a keyword; a letter counts by its capital. -/
def touchesKeyword (c : Char) : Bool :=
  match capitals c with
  | [capital] => capital.isUpper || capital.isDigit || capital == '_' || capital == '$'
  | _ => false

/-- A keyword in either case. As many characters as the keyword has must be its capitals, or all that is left of
the text; a ligature at the end can thus stand for two letters. -/
def keyword (word : String) : Rule Unit where
  skips := true
  run c :=
    let size := word.length
    if upper (c.rest.take size) = upper word.toList then
      if c.previous.any touchesKeyword then fail (c.position - 1) (.keywordStart word)
      else if (c.rest.drop size).head?.any touchesKeyword then fail (c.position + size) (.keywordEnd word)
      else .ok ((), c.advance size)
    else fail c.position (.keyword word)

def keywords : List String → Rule Unit
  | [] => pure ()
  | [word] => keyword word
  | word :: more => do
    keyword word
    keywords more

def mark (sign : Char) : Rule Unit where
  skips := true
  run c :=
    match c.rest with
    | d :: _ => if d = sign then .ok ((), c.advance 1) else fail c.position (.shape (.mark (String.singleton sign)))
    | [] => fail c.size (.shape (.mark (String.singleton sign)))

def comma : Rule Unit := mark ','

def parenthesized {α : Type} (r : Rule α) : Rule α := do
  mark '('
  let inside ← r
  mark ')'
  return inside

/-- A piece of text that a recogniser takes from the front, given as what it means and how long it is. -/
def recognised {α : Type} (name : Shape) (recognise : List Char → Option (α × Nat)) : Rule α where
  skips := true
  run c :=
    match recognise c.rest with
    | some (meaning, size) => .ok (meaning, c.advance size)
    | none => fail c.position (.shape name)

def isWordStart (c : Char) : Bool := c.isAlpha || c == '_'

def isPlainWord (c : Char) : Bool := c.isAlphanum || c == '_'

def isNamePart (c : Char) : Bool := isPlainWord c || c == '$'

/-- The longest run of characters that begins with a letter or an underscore. -/
def wordOf (part : Char → Bool) (cs : List Char) : Option (String × Nat) :=
  match cs with
  | c :: rest =>
    if isWordStart c then
      let word := c :: rest.takeWhile part
      some (String.ofList word, word.length)
    else none
  | [] => none

def wordShape : Shape := .letters "A-Z_a-z, 0-9A-Z_a-z"

def word : Rule String := recognised wordShape (wordOf isPlainWord)

end Rule

/-- The character that a letter behind a backslash stands for, in every dialect. -/
def controlOf? : Char → Option Char
  | 't' => some '\t'
  | 'n' => some '\n'
  | 'f' => some '\x0c'
  | 'r' => some '\r'
  | _ => none

/-- Numeric escapes behind a backslash: what they stand for and how many characters they take. An octal digit in
front of a `3` stands for itself and the `3`; `0` for the null character; a hexadecimal digit between `x` and `2`, or
between `u` and `4`, for the character with that two-digit number. -/
def numericEscape? : List Char → Option (List Char × List Char)
  | c :: d :: rest =>
    if '0' ≤ c ∧ c ≤ '7' ∧ d = '3' then some ([c, d], rest)
    else if c = '0' then some ([Char.ofNat 0], d :: rest)
    else match c, hexDigit? d, rest with
      | 'x', some n, '2' :: after => some ([Char.ofNat (16 * n + 2)], after)
      | 'u', some n, '4' :: after => some ([Char.ofNat (16 * n + 4)], after)
      | _, _, _ => none
  | ['0'] => some ([Char.ofNat 0], [])
  | _ => none

theorem numericEscape?_shorter (cs meaning rest : List Char) (found : numericEscape? cs = some (meaning, rest)) :
    rest.length < cs.length := by
  unfold numericEscape? at found
  grind

/-- What the text between quotes stands for, doubled quotes left as they are. With `escapes`, a backslash in front
of any other character gives that character. -/
def unescape (escapes : Bool) (cs : List Char) : List Char :=
  match cs with
  | '\\' :: c :: rest =>
    match controlOf? c with
    | some control => control :: unescape escapes rest
    | none =>
      match _found : numericEscape? (c :: rest) with
      | some (meaning, after) => meaning ++ unescape escapes after
      | none => if escapes then c :: unescape escapes rest else '\\' :: unescape escapes (c :: rest)
  | c :: rest => c :: unescape escapes rest
  | [] => []
termination_by cs.length
decreasing_by
  all_goals try have shorter := numericEscape?_shorter _ _ _ _found
  all_goals simp only [List.length_cons] at *; omega

namespace Rule

def quoted (q : Quoting) : Rule String where
  skips := true
  run c :=
    let name := Shape.named ("string enclosed in " ++ inspectMark q.mark)
    match c.rest with
    | d :: rest =>
      if d = q.mark then
        match q.close rest with
        | some (inside, _) =>
          .ok (String.ofList (undouble q.mark (unescape (q.escape == .any) inside)), c.advance (inside.length + 2))
        | none => fail c.position (.shape name)
      else fail c.position (.shape name)
    | [] => fail c.size (.shape name)
where
  /-- The quote itself between quotes of the other kind. -/
  inspectMark (mark : Char) : String :=
    let around := if mark = '\x27' then "\x22" else "'"
    around ++ String.singleton mark ++ around

def nameMark : Dialect → Char
  | .mysql => '\x60'
  | .postgres => '\x22'

def identifierShape : Shape := .named "identifier"

def identifier (d : Dialect) : Rule String :=
  choice identifierShape [quoted ⟨nameMark d, .nothing, true⟩, recognised identifierShape (wordOf isNamePart)]

/-- The name of a table, perhaps with a qualifier and a point in front. -/
def tableName (d : Dialect) : Rule (String × String) := do
  let qualifier ← optional do
    let name ← identifier d
    mark '.'
    return name
  let name ← identifier d
  return (qualifier.getD "", name)

def stringShape : Dialect → Shape
  | .mysql => .choice [.named "string enclosed in \x22'\x22", .named "string enclosed in '\x22'"]
  | .postgres => .named "string enclosed in \x22'\x22"

/-- A string: in MySQL between single or double quotes, with backslash escapes; in Postgres between single quotes. -/
def string : Dialect → Rule String
  | .mysql => choice (stringShape .mysql) [quoted ⟨'\x27', .any, false⟩, quoted ⟨'\x22', .any, false⟩]
  | .postgres => quoted ⟨'\x27', .nothing, false⟩

end Rule
end SqlSchema.Reader
