import SqlSchema.Interruption
import SqlSchema.Statement.Nesting
import SqlSchema.Statement.Split
import SqlSchema.Token.Lexer

/-! The kind of a statement, told from its first word. A first word that belongs to a larger expression, such as
the first item of a list, tells nothing. -/
namespace SqlSchema.Statement
open Token

inductive Kind where
  | missing
  /-- There is a statement, but its first word is none that statements begin with. -/
  | unknown
  | known (word : String)
deriving DecidableEq, Repr

/-- First words that make a statement even where they are not reserved. -/
def openingWords : List String := [
  "SET", "USE", "BEGIN", "START", "COMMIT", "ROLLBACK", "SAVEPOINT",
  "LOCK", "UNLOCK", "SHOW", "DESCRIBE", "DESC", "EXPLAIN", "GRANT", "REVOKE",
  "ANALYZE", "OPTIMIZE", "FLUSH", "CALL", "DO", "HANDLER", "LOAD",
  "COMMENT", "VACUUM", "REINDEX", "CLUSTER", "COPY", "DISCARD", "RESET",
  "LISTEN", "NOTIFY", "PREPARE", "EXECUTE", "DEALLOCATE"]

/-- A token, or a pair of parentheses with all that it encloses. -/
inductive Item where
  | token (t : Token)
  | group
deriving DecidableEq, Repr

/-- Puts every matched pair of parentheses into one item. `outer` holds what stood in front of each open
parenthesis, `current` what stands behind the last one, both from right to left. -/
def itemsFrom (outer : List (Token × List Item)) (current : List Item) : List Token → List Item
  | [] => (outer.foldl (fun inside (opening, before) => inside ++ .token opening :: before) current).reverse
  | t :: rest =>
    if t.isMark '(' then itemsFrom ((t, current) :: outer) [] rest
    else if t.isMark ')' then
      match outer with
      | (_, before) :: more => itemsFrom more (.group :: before) rest
      | [] => itemsFrom [] (.token t :: current) rest
    else itemsFrom outer (.token t :: current) rest

def items (tokens : List Token) : List Item := itemsFrom [] [] tokens

def Item.isSpace : Item → Bool
  | .token t => t.isSpace
  | .group => false

/-- A reserved word in upper case; empty for anything else. -/
def Item.word : Item → String
  | .token t => if t.isKeyword then String.ofList (Text.upper t.text) else ""
  | .group => ""

def Item.has (item : Item) (kinds : List Token.Kind) : Bool :=
  match item with
  | .token t => kinds.contains t.kind
  | .group => false

def Item.isName (item : Item) : Bool := item.has [.name, .typeName, .symbol, .placeholder]

/-- What an operator can be applied to. -/
def Item.isOperand (item : Item) : Bool := item == .group || item.isName || item.has [.number, .string]

def Item.isQuery (item : Item) : Bool := item.has [.keyword .query]

def Item.isMark (item : Item) (mark : String) : Bool :=
  match item with
  | .token t => t.kind == .punctuation && t.text == mark.toList
  | .group => false

/-- What may stand in a list beside a comma. -/
def Item.isListed (item : Item) : Bool :=
  match item with
  | .token t => t.isKeyword || t.isComment || t.isHint || t.kind == .wildcard || item.isOperand
  | .group => false

/-- Whether an opening word is closed by its counterpart, where further opening words want their own. -/
def closes (opening : List String) (closing : String) (depth : Nat) : List Item → Bool
  | [] => false
  | item :: rest =>
    if opening.contains item.word then closes opening closing (depth + 1) rest
    else if item.word = closing then depth = 0 || closes opening closing (depth - 1) rest
    else closes opening closing depth rest

/-- A pair of parentheses that is no argument list and no operand. -/
def bareGroup (before : Option Item) : List Item → Bool
  | [] => false
  | item :: rest =>
    if item.isSpace then bareGroup before rest
    else
      let next := rest.find? (!·.isSpace)
      let free := item == .group && !before.any (·.has [.name]) &&
        !next.any fun i => i.isName || i.word = "AS" || i.has [.operator, .comparison, .wildcard]
      free || bareGroup (some item) rest

/-- Whether the words around a first keyword take it into an expression of theirs. -/
def absorbed (word : String) (role : Role) (rest : List Item) : Bool :=
  let following := rest.filter (!·.isSpace)
  let next := following.head?
  let second := following.tail.head?
  let operand := second.any (·.isOperand)
  word = "WHERE"
    || (word = "CASE" && closes ["CASE"] "END" 0 rest)
    || (word = "IF" && closes ["IF"] "END IF" 0 rest)
    || (["FOR", "FOREACH"].contains word && closes ["FOR", "FOREACH"] "END LOOP" 0 rest)
    || (word = "VALUES" && bareGroup none rest)
    || (word = "OVER" && next.any fun i => i == .group || i.has [.name, .placeholder, .typeName])
    || (next.any (·.isMark "::") && second.isSome)
    || (next.any (·.isMark ",") && second.any (·.isListed))
    || (word = "NULL" && next.any (·.has [.comparison]) && operand)
    || (word = "NULL" && next.any (·.word = "AS") && second.isSome)
    || (["CURRENT_DATE", "CURRENT_TIME", "CURRENT_TIMESTAMP"].contains word &&
        next.any (·.has [.operator, .wildcard]) && operand)
    || (role != .general && next.any (·.has [.assignment]) && second.any (!·.has [.keyword .general]))

/-- Whether what directly follows a first name makes one expression with it. -/
def attached (rest : List Item) : Bool :=
  match rest with
  | [] => false
  | next :: more =>
    let second := (more.filter (!·.isSpace)).head?
    next == .group || next.isName || next.isMark "."
      || (next.isMark "[" && more.any (·.isMark "]"))
      || (next.isMark "::" && second.isSome)
      || (next.isMark "," && second.any (·.isListed))
      || (next.has [.operator, .wildcard, .comparison] && second.any (·.isOperand))
      || (next.has [.assignment] && second.isSome)

/-- The query word behind the named queries of a `WITH`, where `before` are the items in front, last first. -/
def queryWord (before : List Item) : List Item → Option String
  | [] => none
  | item :: rest =>
    if item.isSpace then queryWord before rest
    else
      let named := match before with
        | last :: front => last.isName || front.head?.any (·.word = "AS")
        | [] => false
      if item.isQuery && named then some item.word
      else queryWord (item :: before) rest

/-- The kind told by the first token that is neither white space nor a comment. -/
def kindOf (tokens : List Token) : Kind :=
  match tokens.dropWhile fun t => t.isSpace || t.isComment || t.isHint with
  | [] => .unknown
  | t :: rest =>
    let following := items rest
    let text := String.ofList (Text.upper t.text)
    let first := String.ofList (Text.upper (Text.firstWord t.text))
    let parted := following.head?.all (·.isSpace)
    match t.kind with
    | .keyword role =>
      if absorbed text role following then
        if parted && openingWords.contains first then .known first else .unknown
      else
        match role with
        | .query | .definition => .known text
        | .withClause => .known ((queryWord [] (following.filter fun i => !i.has [.lineComment, .blockComment])).getD first)
        | _ => .known first
    | .name => if openingWords.contains first && !attached following then .known first else .unknown
    | _ => .unknown

def classify (cs : List Char) : Except Interruption Kind :=
  let statements := split (scan cs)
  if statements.any fun tokens => nestingLimit < nesting tokens then .error .nestingTooDeep
  else .ok (match statements with
    | [] => .missing
    | tokens :: _ => kindOf tokens)

end SqlSchema.Statement
