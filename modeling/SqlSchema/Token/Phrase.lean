import SqlSchema.Text.Blank
import SqlSchema.Text.Digit
import SqlSchema.Text.Word
import SqlSchema.Token.Basic

/-! Reserved phrases: one or more words that make one token, with any white space between them. Letters match in
either case, and three of them also in forms beyond ASCII. -/
namespace SqlSchema.Token
open Text

/-- Letters beyond ASCII that count as one of the basic capitals. -/
def variants : List (Char × List Nat) := [('I', [0x130, 0x131]), ('S', [0x17f]), ('K', [0x212a])]

def isLetter (capital c : Char) : Bool :=
  c.toUpper == capital || ((variants.lookup capital).getD []).contains c.toNat

/-- The letters with which a name may begin: Latin ones without most accents beyond Western Europe. -/
def isNameStart (c : Char) : Bool :=
  c.isAlpha || inRanges [(0xc0, 0xdc), (0xe0, 0xf6), (0xf8, 0xfc), (0x130, 0x131), (0x17f, 0x17f), (0x212a, 0x212b)] c.toNat

def isNameStartOrUnderscore (c : Char) : Bool := c == '_' || isNameStart c

def spelled : List Char → List Char → Option (List Char)
  | [], cs => some cs
  | _ :: _, [] => none
  | capital :: word, c :: rest => if isLetter capital c then spelled word rest else none

def blanks : List Char → Option (List Char)
  | c :: rest => if isBlank c then some (trimLeft rest) else none
  | [] => none

def phrase : List String → List Char → Option (List Char)
  | [], cs => some cs
  | [word], cs => spelled word.toList cs
  | word :: more, cs => do
    let after ← spelled word.toList cs
    let next ← blanks after
    phrase more next

def wordEnds (cs : List Char) : Bool :=
  match cs with
  | c :: _ => !isWord c
  | [] => true

def endingWord (after : Option (List Char)) : Option (List Char) := after.filter wordEnds

def firstPhrase (phrases : List (List String)) (cs : List Char) : Option (List Char) :=
  phrases.findSome? fun words => endingWord (phrase words cs)

private def joins : List (List String) :=
  let sides := ["LEFT", "RIGHT", "FULL"]
  let manners := ["INNER", "OUTER", "STRAIGHT"]
  (sides.flatMap fun side => manners.map fun manner => [side, manner, "JOIN"]) ++
    (sides ++ manners ++ ["CROSS", "NATURAL"]).map (fun word => [word, "JOIN"]) ++ [["JOIN"]]

private def orders : List (List String) :=
  (["ASC", "DESC"].flatMap fun order => ["FIRST", "LAST"].map fun place => [order, "NULLS", place]) ++
    [["ASC"], ["DESC"]]

/-- The phrases that are looked for in front of single words, longer ones first. -/
def phrases : List (Kind × List (List String)) := [
  (.keyword .general, joins),
  (.keyword .general,
    [["END", "IF"], ["END", "LOOP"], ["END", "WHILE"], ["END", "FOR"], ["END", "CASE"], ["END"]]),
  (.keyword .general, [["IF", "NOT", "EXISTS"], ["IF", "EXISTS"]]),
  (.keyword .general, [["NOT", "NULL"]]),
  (.keyword .order, orders),
  (.keyword .order, [["NULLS", "FIRST"], ["NULLS", "LAST"]]),
  (.keyword .general, [["UNION", "ALL"]]),
  (.keyword .definition, [["CREATE", "OR", "REPLACE"], ["CREATE"]]),
  (.typeName, [["DOUBLE", "PRECISION"]]),
  (.keyword .general, [["GROUP", "BY"], ["ORDER", "BY"], ["PRIMARY", "KEY"], ["HANDLER", "FOR"]])]

private def views : List (List String) :=
  ["EXPLODE", "INLINE", "PARSE_URL_TUPLE", "POSEXPLODE", "STACK"].map fun word => ["LATERAL", "VIEW", word]

private def likes : List (List String) :=
  ["LIKE", "ILIKE", "RLIKE"].flatMap fun word => [["NOT", word], [word]]

private def patterns : List (List String) :=
  [["NOT", "REGEXP", "BINARY"], ["NOT", "REGEXP"], ["REGEXP", "BINARY"], ["REGEXP"]]

/-- `GO`, one blank and a number. -/
def goCount (cs : List Char) : Option (List Char) :=
  match spelled ['G', 'O'] cs with
  | some (c :: d :: rest) =>
    if isBlank c && isDigit d then endingWord (some (rest.dropWhile isDigit)) else none
  | _ => none

/-- `AT TIME ZONE` with a zone between quotes. -/
def timeZone (cs : List Char) : Option (List Char) := do
  let after ← phrase ["AT", "TIME", "ZONE"] cs <|> phrase ["WITH'", "TIME", "ZONE"] cs
  let quoted ← blanks after
  match quoted with
  | '\x27' :: zone =>
    match zone.takeWhile (· != '\x27'), zone.dropWhile (· != '\x27') with
    | _ :: _, _ :: rest => some rest
    | _, _ => none
  | _ => none

def leadingPhrase (cs : List Char) : Option (Kind × List Char) :=
  (phrases.findSome? fun (kind, ways) => (firstPhrase ways cs).map (kind, ·))
    <|> (goCount cs).map (.keyword .general, ·)
    <|> (firstPhrase views cs).map (.keyword .general, ·)
    <|> (timeZone cs).map (.keyword .timeZone, ·)
    <|> (firstPhrase likes cs).map (.comparison, ·)
    <|> (firstPhrase patterns cs).map (.comparison, ·)

end SqlSchema.Token
