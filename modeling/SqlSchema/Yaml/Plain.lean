import SqlSchema.Text.Hex

/-! What a plain scalar means in YAML 1.1: text that looks like a number, a truth value, a date and so on is not
read as text. -/
namespace SqlSchema.Yaml

inductive PlainKind where
  | null
  | bool (value : Bool)
  | integer
  | float
  | timestamp
  | merge
  | value
  | text
deriving DecidableEq, Repr

def trueWords : List String := ["yes", "Yes", "YES", "true", "True", "TRUE", "on", "On", "ON"]

def falseWords : List String := ["no", "No", "NO", "false", "False", "FALSE", "off", "Off", "OFF"]

def nullWords : List String := ["", "~", "null", "Null", "NULL"]

def dropSign : List Char → List Char
  | '+' :: rest | '-' :: rest => rest
  | cs => cs

/-- A digit or an underscore, which may stand between digits. -/
def isSpacedDigit (c : Char) : Bool := c.isDigit || c == '_'

def isSpacedNumeral : List Char → Bool
  | c :: rest => c.isDigit && rest.all isSpacedDigit
  | [] => false

def isSixtieth : List Char → Bool
  | [c] => c.isDigit
  | [c, d] => '0' ≤ c && c ≤ '5' && d.isDigit
  | _ => false

/-- Whether the first part of a list passes one test, and each of the others, at least one, another test. -/
def isPlaced (first other : List Char → Bool) : List (List Char) → Bool
  | head :: next :: rest => first head && (next :: rest).all other
  | _ => false

/-- Integers to the bases two, eight, ten, sixteen and sixty. -/
def isInteger (cs : List Char) : Bool :=
  match dropSign cs with
  | ['0'] => true
  | '0' :: 'b' :: rest => !rest.isEmpty && rest.all fun c => c == '0' || c == '1' || c == '_'
  | '0' :: 'x' :: rest => !rest.isEmpty && rest.all fun c => (Text.hexDigit? c).isSome || c == '_'
  | '0' :: rest => !rest.isEmpty && rest.all fun c => ('0' ≤ c && c ≤ '7') || c == '_'
  | unsigned =>
    isSpacedNumeral unsigned || isPlaced isSpacedNumeral isSixtieth (unsigned.splitOn ':')

/-- Nothing, or a power of ten with its sign. -/
def isPower : List Char → Bool
  | [] => true
  | e :: sign :: rest =>
    (e == 'e' || e == 'E') && (sign == '+' || sign == '-') && !rest.isEmpty && rest.all (·.isDigit)
  | _ => false

def infinityWords : List String := [".inf", ".Inf", ".INF"]

def nanWords : List String := [".nan", ".NaN", ".NAN"]

/-- Numbers with a point, in base ten or sixty. -/
def isFloat (cs : List Char) : Bool :=
  let unsigned := dropSign cs
  let whole := unsigned.takeWhile (· != '.')
  match unsigned.dropWhile (· != '.') with
  | '.' :: rest =>
    let power := rest.dropWhile isSpacedDigit
    nanWords.contains (String.ofList cs)
      || infinityWords.contains (String.ofList unsigned)
      || (isSpacedNumeral whole && isPower power)
      || (cs.head? == some '.' && isSpacedNumeral (rest.takeWhile isSpacedDigit) && isPower power)
      || (isPlaced isSpacedNumeral isSixtieth (whole.splitOn ':') && power.isEmpty)
  | _ => false

/-- How many ASCII digits there are, if the count lies between two bounds, and what follows them. -/
def takeCounted? (least most : Nat) (cs : List Char) : Option (List Char) :=
  let digits := (cs.take most).takeWhile (·.isDigit)
  if least ≤ digits.length then some (cs.drop digits.length) else none

def takeMark? (isMark : Char → Bool) : List Char → Option (List Char)
  | c :: rest => if isMark c then some rest else none
  | [] => none

def isDash (c : Char) : Bool := c == '-'

def isColon (c : Char) : Bool := c == ':'

def isGap (c : Char) : Bool := c == ' ' || c == '\t'

def isDate (cs : List Char) : Bool :=
  (do takeCounted? 2 2 (← takeMark? isDash (← takeCounted? 2 2 (← takeMark? isDash (← takeCounted? 4 4 cs))))) == some []

/-- Nothing, `Z`, or a distance from it in hours and perhaps minutes. -/
def isZone (cs : List Char) : Bool :=
  match cs.dropWhile isGap with
  | [] => cs.isEmpty
  | ['Z'] => true
  | sign :: rest =>
    (sign == '+' || sign == '-') &&
      match takeCounted? 1 2 rest with
      | some [] => true
      | some (':' :: minutes) => takeCounted? 2 2 minutes == some []
      | _ => false

/-- Hours, minutes and seconds, perhaps with a fraction and a zone. -/
def isTime (cs : List Char) : Bool :=
  let seconds := do
    takeCounted? 2 2 (← takeMark? isColon (← takeCounted? 2 2 (← takeMark? isColon (← takeCounted? 1 2 cs))))
  match seconds with
  | some ('.' :: rest) => isZone (rest.dropWhile (·.isDigit))
  | some rest => isZone rest
  | none => false

/-- A date and a time with `T` or white space between them. -/
def isDateTime (cs : List Char) : Bool :=
  let day := do
    takeCounted? 1 2 (← takeMark? isDash (← takeCounted? 1 2 (← takeMark? isDash (← takeCounted? 4 4 cs))))
  match day with
  | some (c :: rest) => if isGap c then isTime (rest.dropWhile isGap) else (c == 'T' || c == 't') && isTime rest
  | _ => false

def plainKind (cs : List Char) : PlainKind :=
  let word := String.ofList cs
  if trueWords.contains word then .bool true
  else if falseWords.contains word then .bool false
  else if isFloat cs then .float
  else if isInteger cs then .integer
  else if word = "<<" then .merge
  else if nullWords.contains word then .null
  else if isDate cs || isDateTime cs then .timestamp
  else if word = "=" then .value
  else .text

end SqlSchema.Yaml
