import SqlSchema.Text.Quoted
import SqlSchema.Text.Upper
import SqlSchema.Token.Keyword
import SqlSchema.Token.Phrase

/-! Cutting a text into tokens. The rules are tried in a fixed order at every token's first character; some look at
the character before it. -/
namespace SqlSchema.Token
open Text

def afterBlock : List Char → Option (List Char)
  | '*' :: '/' :: rest => some rest
  | _ :: rest => afterBlock rest
  | [] => none

/-- A block comment; one that is never closed is no comment. -/
def block : List Char → Option (Kind × List Char)
  | '/' :: '*' :: rest =>
    (afterBlock rest).map (if rest.head? = some '+' then .blockHint else .blockComment, ·)
  | _ => none

def afterPart (part : List Char) : List Char → Option (List Char)
  | [] => none
  | c :: rest => if part.isPrefixOf (c :: rest) then some ((c :: rest).drop part.length) else afterPart part rest

/-- A text between two equal tags of the form `$word$`. -/
def dollarString (before : Option Char) : List Char → Option (Kind × List Char)
  | '$' :: rest =>
    if before.any fun c => isWord c || c == '\x22' || c == '$' then none
    else
      let tag := match rest with
        | c :: more => if isNameStartOrUnderscore c then c :: more.takeWhile isWord else []
        | [] => []
      match rest.drop tag.length with
      | '$' :: body => (afterPart ('$' :: tag ++ ['$']) body).map (.dollarString, ·)
      | _ => none
  | _ => none

/-- What follows the end of the line; a line feed behind a carriage return belongs to it. -/
def afterLine : List Char → List Char
  | '\r' :: '\n' :: rest => rest
  | '\r' :: rest => rest
  | '\n' :: rest => rest
  | _ :: rest => afterLine rest
  | [] => []

/-- A comment up to the end of the line, after two hyphens or a number sign and a space. -/
def line : List Char → Option (Kind × List Char)
  | '-' :: '-' :: rest | '#' :: ' ' :: rest =>
    some (if rest.head? = some '+' then .lineHint else .lineComment, afterLine rest)
  | _ => none

def space : List Char → Option (Kind × List Char)
  | '\r' :: '\n' :: rest => some (.lineEnd, rest)
  | c :: rest =>
    if isLineEnd c then some (.lineEnd, rest)
    else if isBlank c then some (.blank, rest)
    else none
  | [] => none

/-- Marks that are recognised before quotes and names. -/
def earlyMark : List Char → Option (Kind × List Char)
  | ':' :: '=' :: rest => some (.assignment, rest)
  | ':' :: ':' :: rest => some (.punctuation, rest)
  | '*' :: rest => some (.wildcard, rest)
  | _ => none

def quoted (kind : Kind) (q : Quoting) : List Char → Option (Kind × List Char)
  | c :: rest => if c = q.mark then (q.close rest).map fun (_, after) => (kind, after) else none
  | [] => none

def word? (cs : List Char) : Option (List Char) :=
  if cs.head?.any isWord then some (cs.dropWhile isWord) else none

def percentPlaceholder : List Char → Option (Kind × List Char)
  | '%' :: '(' :: rest =>
    match word? rest with
    | some (')' :: s :: after) => if isLetter 'S' s then some (.placeholder, after) else none
    | _ => none
  | '%' :: s :: after => if isLetter 'S' s then some (.placeholder, after) else none
  | _ => none

def placeholder (before : Option Char) (cs : List Char) : Option (Kind × List Char) :=
  match cs with
  | '?' :: rest => some (.placeholder, rest)
  | '$' :: rest | ':' :: rest => if before.any isWord then none else (word? rest).map (.placeholder, ·)
  | cs => percentPlaceholder cs

def command : List Char → Option (Kind × List Char)
  | '\\' :: rest => (word? rest).map (.command, ·)
  | _ => none

/-- Words that are reserved even where a name would be looked for. -/
def earlyWord (cs : List Char) : Option (Kind × List Char) :=
  (firstPhrase [["CASE"], ["IN"], ["VALUES"], ["USING"], ["FROM"], ["AS"]] cs).map (.keyword .general, ·)

/-- A name of two or more characters behind an at sign or one or two number signs. -/
def markedName (cs : List Char) : Option (Kind × List Char) :=
  match cs with
  | '#' :: '#' :: c :: rest | '@' :: c :: rest | '#' :: c :: rest =>
    if isNameStart c then (word? rest).map (.name, ·) else none
  | _ => none

/-- A word in front of a point, behind a point or in front of a parenthesis is a name, reserved or not. -/
def linkedName (before : Option Char) (cs : List Char) : Option (Kind × List Char) :=
  if cs.head?.any isNameStart then
    let after := cs.tail.dropWhile isWord
    let pointed := match trimLeft after with
      | '.' :: next => !next.head?.any isDigit
      | _ => false
    if pointed || before == some '.' || after.head? == some '(' then some (.name, after) else none
  else none

def dropHyphen : List Char → List Char
  | '-' :: rest => rest
  | cs => cs

def isHexDigit (c : Char) : Bool := isDigit c || (hexLetter c)
where hexLetter (c : Char) : Bool := 'A' ≤ c.toUpper && c.toUpper ≤ 'F'

def hexNumber (cs : List Char) : Option (Kind × List Char) :=
  match dropHyphen cs with
  | '0' :: x :: c :: rest =>
    if isLetter 'X' x && isHexDigit c then some (.number, rest.dropWhile isHexDigit) else none
  | _ => none

/-- A run of at least `least` digits that a letter must not follow; it may leave its last digit to avoid that. -/
def digitRun (least : Nat) (cs : List Char) : Option (List Char) :=
  let run := cs.takeWhile isDigit
  let after := cs.dropWhile isDigit
  if run.length < least then none
  else if !after.head?.any isNameStartOrUnderscore then some after
  else if run.length ≤ least then none
  else some (cs.drop (run.length - 1))

def startsWithDigit (cs : List Char) : Bool := cs.head?.any isDigit

/-- Digits, perhaps with a fraction, and an exponent. -/
def exponentNumber (cs : List Char) : Option (Kind × List Char) :=
  let unsigned := dropHyphen cs
  if startsWithDigit unsigned then
    let whole := unsigned.dropWhile isDigit
    let after := match whole with
      | '.' :: rest => if startsWithDigit rest then rest.dropWhile isDigit else whole
      | _ => whole
    match after with
    | e :: rest =>
      let power := dropHyphen rest
      if isLetter 'E' e && startsWithDigit power then some (.number, power.dropWhile isDigit) else none
    | [] => none
  else none

/-- Digits with a point among or beside them, or digits alone. -/
def plainNumber (cs : List Char) : Option (Kind × List Char) :=
  let unsigned := dropHyphen cs
  let pointed := match unsigned with
    | '.' :: rest => digitRun 1 rest
    | _ =>
      if startsWithDigit unsigned then
        match unsigned.dropWhile isDigit with
        | '.' :: rest => digitRun 0 rest
        | _ => none
      else none
  (pointed <|> digitRun 1 unsigned).map (.number, ·)

/-- A name between square brackets that nothing indexable precedes. -/
def bracketName (before : Option Char) : List Char → Option (Kind × List Char)
  | '[' :: rest =>
    if before.any fun c => isWord c || c == ']' || c == ')' then none
    else
      let free := fun c => c != '[' && c != ']'
      match rest.takeWhile free, rest.dropWhile free with
      | _ :: _, ']' :: after => some (.name, after)
      | _, _ => none
  | _ => none

def isWordPart (c : Char) : Bool := isWord c || c == '$' || c == '#'

/-- A word, which the table of reserved words sorts. -/
def plainWord (cs : List Char) : Option (Kind × List Char) :=
  if cs.head?.any isWord then
    let word := cs.takeWhile isWordPart
    some (wordKind (String.ofList (upper word)), cs.dropWhile isWordPart)
  else none

def isPunctuation (c : Char) : Bool := [';', ':', '(', ')', '[', ']', ',', '.'].contains c

def isComparisonSign (c : Char) : Bool := ['<', '>', '=', '~', '!'].contains c

def isOperatorSign (c : Char) : Bool := ['+', '/', '@', '#', '%', '^', '&', '|', '-'].contains c

def sign (cs : List Char) : Option (Kind × List Char) :=
  match cs with
  | '-' :: '>' :: '>' :: rest | '-' :: '>' :: rest | '#' :: '>' :: '>' :: rest | '#' :: '>' :: rest
  | '@' :: '>' :: rest | '<' :: '@' :: rest | '-' :: rest | '#' :: '-' :: rest => some (.operator, rest)
  | c :: rest =>
    if isPunctuation c then some (.punctuation, rest)
    else if isComparisonSign c then some (.comparison, rest.dropWhile isComparisonSign)
    else if isOperatorSign c then some (.operator, rest.dropWhile isOperatorSign)
    else none
  | [] => none

/-- The kind of the first token of a text, and what follows it. -/
def leading (before : Option Char) (cs : List Char) : Option (Kind × List Char) :=
  block cs <|> dollarString before cs <|> line cs <|> space cs <|> earlyMark cs
    <|> quoted .name ⟨'\x60', .nothing, false⟩ cs
    <|> quoted .name ⟨'´', .nothing, false⟩ cs
    <|> placeholder before cs <|> command cs <|> earlyWord cs <|> markedName cs <|> linkedName before cs
    <|> hexNumber cs <|> exponentNumber cs <|> plainNumber cs
    <|> quoted .string ⟨'\x27', .quote, false⟩ cs
    <|> quoted .symbol ⟨'\x22', .quote, false⟩ cs
    <|> bracketName before cs <|> leadingPhrase cs <|> plainWord cs <|> sign cs

/-- Cuts a text behind a given character. -/
def scanFrom (before : Option Char) : List Char → List Token
  | [] => []
  | c :: rest =>
    let (kind, after) := (leading before (c :: rest)).getD (.stray, rest)
    let size := rest.length - after.length
    let text := c :: rest.take size
    ⟨kind, text⟩ :: scanFrom text.getLast? (rest.drop size)
termination_by cs => cs.length
decreasing_by simp only [List.length_drop, List.length_cons]; omega

def scan (cs : List Char) : List Token := scanFrom none cs

def textOf (tokens : List Token) : List Char := tokens.flatMap (·.text)

theorem textOf_scanFrom (before : Option Char) (cs : List Char) : textOf (scanFrom before cs) = cs := by
  fun_induction scanFrom before cs with
  | case1 => rfl
  | case2 before c rest kind after found size text ih =>
    simp only [textOf, List.flatMap_cons] at ih ⊢
    rw [ih]
    simp [text, List.take_append_drop]

/-- Scanning loses nothing and adds nothing. -/
theorem textOf_scan (cs : List Char) : textOf (scan cs) = cs := textOf_scanFrom none cs

end SqlSchema.Token
