/-! Tokens of SQL text. They keep their characters as written, so that the tokens of a text put one after the
other are the text again. -/
namespace SqlSchema.Token

inductive Role where
  | general
  /-- Reads or changes rows. -/
  | query
  /-- Changes the schema. -/
  | definition
  | withClause
  | privilege
  | order
  | timeZone
deriving DecidableEq, Repr

inductive Kind where
  /-- Comments that open with a plus sign address the optimiser and are part of the statement. -/
  | lineHint
  | blockHint
  | lineComment
  | blockComment
  | lineEnd
  | blank
  | keyword (role : Role)
  | name
  | typeName
  | symbol
  | placeholder
  | number
  | string
  | dollarString
  | operator
  | comparison
  | wildcard
  | assignment
  | punctuation
  | command
  /-- A character that fits nowhere. -/
  | stray
deriving DecidableEq, Repr

end Token

structure Token where
  kind : Token.Kind
  text : List Char
deriving DecidableEq, Repr

namespace Token

/-- A comment that means nothing to anyone but readers. -/
def isComment (t : Token) : Bool := t.kind == .lineComment || t.kind == .blockComment

def isHint (t : Token) : Bool := t.kind == .lineHint || t.kind == .blockHint

def isSpace (t : Token) : Bool := t.kind == .blank || t.kind == .lineEnd

def isKeyword (t : Token) : Bool :=
  match t.kind with
  | .keyword _ => true
  | _ => false

def isMark (t : Token) (c : Char) : Bool := t.kind == .punctuation && t.text == [c]

end Token
end SqlSchema
