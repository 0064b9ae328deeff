import SqlSchema.Yaml.Plain

/-! How a text is written in YAML: plain where it is read back as the same text, between single quotes where it is
not, and between double quotes where it needs escapes. -/
namespace SqlSchema.Yaml

inductive Style where
  | plain
  | single
  | double
deriving DecidableEq, Repr

def isBreak (c : Char) : Bool := c == '\n' || c == '\x85' || c == '\u2028' || c == '\u2029'

/-- Characters beyond ASCII that are written as they are. -/
def isWide (c : Char) : Bool :=
  c != '\ufeff' && (c == '\x85' || ('\xa0' ≤ c && c ≤ '\ufffd') || (0x10000 ≤ c.toNat && c.toNat < 0x10ffff))

def isSpecial (c : Char) : Bool := !(c == '\n' || (' ' ≤ c && c ≤ '~') || isWide c)

/-- Whether a space stands beside the end of a line, where it would be lost. -/
def spaceMeetsBreak : List Char → Bool
  | c :: d :: rest => (c == ' ' && isBreak d) || (isBreak c && d == ' ') || spaceMeetsBreak (d :: rest)
  | _ => false

/-- Characters that mean something at the beginning of a scalar. -/
def isIndicator (c : Char) : Bool := ",[]\x7b\x7d#&*!|>'\x22%@\x60".toList.contains c

/-- Characters that mean something in front of a space. -/
def isSpacedIndicator (c : Char) : Bool := c == '?' || c == ':' || c == '-'

/-- A colon before a space or at the end makes a key, and a number sign behind a space a comment. -/
def hasInnerMark : List Char → Bool
  | [] => false
  | [c] => c == ':'
  | c :: d :: rest => (c == ':' && d == ' ') || (c == ' ' && d == '#') || hasInnerMark (d :: rest)

def isMarker (cs : List Char) : Bool := cs.take 3 == ['-', '-', '-'] || cs.take 3 == ['.', '.', '.']

/-- Whether a text without special characters can be written plain. -/
def fitsPlain (cs : List Char) : Bool :=
  match cs with
  | [] => false
  | first :: rest =>
    plainKind cs == .text && !cs.any isBreak && first != ' ' && cs.getLast? != some ' ' && !isMarker cs
      && !isIndicator first && !(isSpacedIndicator first && rest.head?.all (· == ' ')) && !hasInnerMark cs

def style (cs : List Char) : Style :=
  if cs.any isSpecial || spaceMeetsBreak cs then .double
  else if fitsPlain cs then .plain
  else .single

end SqlSchema.Yaml
