import SqlSchema.Reader.Word
import SqlSchema.Text.Digit
import SqlSchema.Text.Word
import SqlSchema.Tree

/-! Literals: numbers, strings, bit and hexadecimal strings, placeholders, and the words that stand for values. Digits
of every script are read; which of them make a number is decided when the literal is decoded. -/
namespace SqlSchema.Reader
open Text

def signSize : List Char → Nat
  | '+' :: _ | '-' :: _ => 1
  | _ => 0

def digitCount (cs : List Char) : Nat := (cs.takeWhile isDigit).length

def endsWord (cs : List Char) : Bool := !cs.head?.any isWord

/-- An optional sign and digits, not followed by a word character or a point. -/
def integerSize? (cs : List Char) : Option Nat :=
  let sign := signSize cs
  let digits := digitCount (cs.drop sign)
  let after := cs.drop (sign + digits)
  if 0 < digits && endsWord after && after.head? != some '.' then some (sign + digits) else none

def exponentSize? (cs : List Char) : Option Nat :=
  match cs with
  | e :: rest =>
    if e = 'e' ∨ e = 'E' then
      let sign := signSize rest
      let digits := digitCount (rest.drop sign)
      if 0 < digits then some (1 + sign + digits) else none
    else none
  | [] => none

/-- An optional sign, digits with a point and perhaps an exponent, or digits with an exponent; not followed by a word
character. -/
def floatSize? (cs : List Char) : Option Nat :=
  let sign := signSize cs
  let unsigned := cs.drop sign
  let whole := digitCount unsigned
  match unsigned.drop whole with
  | '.' :: rest =>
    let fraction := digitCount rest
    if whole + fraction = 0 then none
    else
      let mantissa := sign + whole + 1 + fraction
      let size := mantissa + (exponentSize? (cs.drop mantissa)).getD 0
      if endsWord (cs.drop size) then some size else none
  | rest =>
    match exponentSize? rest with
    | some power =>
      let size := sign + whole + power
      if 0 < whole && endsWord (cs.drop size) then some size else none
    | none => none

def isHex (c : Char) : Bool := (hexDigit? c).isSome

def hexNumberSize? : List Char → Option Nat
  | '0' :: x :: rest =>
    let digits := (rest.takeWhile isHex).length
    if (x = 'x' ∨ x = 'X') ∧ 0 < digits ∧ endsWord (rest.drop digits) then some (2 + digits) else none
  | _ => none

/-- A letter and digits of some kind between single quotes; the digits and the length of all. -/
def letterString? (letter : Char) (isPart : Char → Bool) : List Char → Option (String × Nat)
  | c :: '\x27' :: rest =>
    let inside := rest.takeWhile isPart
    match rest.drop inside.length with
    | '\x27' :: _ =>
      if c.toLower = letter then some (String.ofList inside, inside.length + 3) else none
    | _ => none
  | _ => none

def namedPlaceholder? : List Char → Option Nat
  | ':' :: c :: rest => if Rule.isWordStart c then some (2 + (rest.takeWhile isWord).length) else none
  | _ => none

def numberedPlaceholder? : List Char → Option Nat
  | '$' :: rest => let digits := digitCount rest; if 0 < digits then some (1 + digits) else none
  | _ => none

def placeholderSize? (d : Dialect) (cs : List Char) : Option Nat :=
  match d with
  | .postgres => numberedPlaceholder? cs <|> namedPlaceholder? cs
  | .mysql => namedPlaceholder? cs <|> (if cs.head? = some '?' then some 1 else none)

namespace Rule

def sized (kind : Tree.LiteralKind) (name : String) (size? : List Char → Option Nat) : Rule Tree.Literal :=
  recognised (.named name) fun cs => (size? cs).map fun size => (⟨kind, String.ofList (cs.take size)⟩, size)

def lettered (kind : Tree.LiteralKind) (name : String) (letter : Char) (isPart : Char → Bool) : Rule Tree.Literal :=
  recognised (.named name) fun cs => (letterString? letter isPart cs).map fun (text, size) => (⟨kind, text⟩, size)

def integer : Rule Tree.Literal := sized .integer "integer" integerSize?

def stringLiteral (d : Dialect) : Rule Tree.Literal := do
  let text ← string d
  return ⟨.string, text⟩

def literal (d : Dialect) : Rule Tree.Literal :=
  choice (.named "literal") [
    lettered .hexString "hexadecimal string" 'x' isHex,
    lettered .bit "bit string" 'b' (fun c => c == '0' || c == '1'),
    sized .hexNumber "hexadecimal number" hexNumberSize?,
    sized .float "number" floatSize?,
    integer,
    stringLiteral d,
    sized .placeholder "placeholder" (placeholderSize? d)]

def currentTimestamp : Rule Unit := do
  keyword "CURRENT_TIMESTAMP"
  let _ ← optional (parenthesized (optional integer))
  return ()

/-- A word that stands for a value, kept in small letters. -/
def wordValue (text : String) (r : Rule Unit) : Rule Tree.Literal := do
  r
  return ⟨.placeholder, text⟩

def value (d : Dialect) : Rule Tree.Literal :=
  choice (.named "value") [
    literal d,
    wordValue "null" (keyword "NULL"),
    wordValue "current_timestamp" currentTimestamp,
    wordValue "true" (keyword "TRUE"),
    wordValue "false" (keyword "FALSE")]

end Rule
end SqlSchema.Reader
