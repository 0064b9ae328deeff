import SqlSchema.Document
import SqlSchema.Text.Quoted
import SqlSchema.Yaml.Style

/-! Scalars as they are laid out on lines. A line that has grown too long goes on below, at a given indent, where the
text allows it. -/
namespace SqlSchema.Yaml

/-- A line that is longer is broken at the next place. -/
def lineWidth : Nat := 80

def newLine (indent : Nat) : List Char := '\n' :: List.replicate indent ' '

/-- Lays out a text without escapes, from a column on. A single space behind a full line becomes the end of that line.
Line ends of the text are written with one more in front if the first of them is a line feed. -/
def layPlain (indent column : Nat) (previous : Option Char) : List Char → List Char
  | [] => []
  | c :: rest =>
    if isBreak c then
      let opening := if c = '\n' && !previous.any isBreak then ['\n'] else []
      if rest.head?.any isBreak then opening ++ c :: layPlain indent 0 (some c) rest
      else opening ++ c :: List.replicate indent ' ' ++ layPlain indent indent (some c) rest
    else if c = ' ' && lineWidth < column && previous.any (· != ' ') && rest.head?.any (· != ' ') then
      newLine indent ++ layPlain indent indent (some c) rest
    else c :: layPlain indent (column + 1) (some c) rest

def escapeLetter? : Char → Option Char
  | '\x00' => some '0'
  | '\x07' => some 'a'
  | '\x08' => some 'b'
  | '\t' => some 't'
  | '\n' => some 'n'
  | '\x0b' => some 'v'
  | '\x0c' => some 'f'
  | '\r' => some 'r'
  | '\x1b' => some 'e'
  | '\x22' => some '\x22'
  | '\\' => some '\\'
  | '\x85' => some 'N'
  | '\xa0' => some '_'
  | '\u2028' => some 'L'
  | '\u2029' => some 'P'
  | _ => none

/-- Characters that stand for themselves between double quotes. -/
def isBare (c : Char) : Bool :=
  c != '\x22' && c != '\\' && c != '\u2028' && c != '\u2029' && c != '\ufeff' &&
    ((' ' ≤ c && c ≤ '~') || ('\xa0' ≤ c && c ≤ '\ufffd'))

/-- A character as an escape: by letter, or by number in as few digits as it needs. -/
def escape (c : Char) : List Char :=
  match escapeLetter? c with
  | some letter => ['\\', letter]
  | none =>
    if c.toNat < 0x100 then '\\' :: 'x' :: Text.hexCapital 2 c.toNat
    else if c.toNat < 0x10000 then '\\' :: 'u' :: Text.hexCapital 4 c.toNat
    else '\\' :: 'U' :: Text.hexCapital 8 c.toNat

/-- How a full line ends inside double quotes, and what the next one begins with before `rest`. -/
def foldLine (indent : Nat) (rest : List Char) : List Char :=
  '\\' :: newLine indent ++ if rest.head? = some ' ' then ['\\'] else []

/-- The column behind a fold. -/
def foldedColumn (indent : Nat) (rest : List Char) : Nat := if rest.head? = some ' ' then indent + 1 else indent

/-- What was written last between double quotes. -/
inductive Before where
  | nothing
  | bare
  | escaped
deriving DecidableEq, Repr

/-- Lays out a text with escapes, from a column on. A full line can end behind an escape, and before a space or the
first character behind an escape. -/
def layEscaped (indent column : Nat) (before : Before) : List Char → List Char
  | [] => []
  | c :: rest =>
    let inside := before != .nothing && !rest.isEmpty
    if isBare c then
      if inside && (c == ' ' || before == .escaped) && lineWidth < column then
        foldLine indent (c :: rest) ++ c :: layEscaped indent (foldedColumn indent (c :: rest) + 1) .bare rest
      else c :: layEscaped indent (column + 1) .bare rest
    else
      let written := escape c
      let reached := column + written.length
      if inside && lineWidth < reached - 1 then
        written ++ foldLine indent rest ++ layEscaped indent (foldedColumn indent rest) .escaped rest
      else written ++ layEscaped indent reached .escaped rest

def writeText (indent column : Nat) (text : String) : List Char :=
  let cs := text.toList
  match style cs with
  | .plain => layPlain indent column none cs
  | .single => '\x27' :: layPlain indent (column + 1) none (Text.double '\x27' cs) ++ ['\x27']
  | .double => '\x22' :: layEscaped indent (column + 1) .nothing cs ++ ['\x22']

/-- Numbers with an exponent always have a point. -/
def writeFloat (x : Binary64) : List Char :=
  let cs := x.text.toList
  if cs.contains '.' then cs
  else cs.flatMap fun c => if c = 'e' then ['.', '0', 'e'] else [c]

end SqlSchema.Yaml
