import SqlSchema.Text.Blank
import SqlSchema.Text.Upper
import SqlSchema.Token.Basic

/-! Cutting tokens into statements at semicolons. Semicolons inside parentheses and inside the blocks of a routine
do not cut, and a batch separator `GO` cuts without one. -/
namespace SqlSchema.Statement
open Token

/-- What the tokens so far mean for a semicolon to come. -/
structure Depth where
  /-- Open parentheses and blocks; negative after too many closing ones. -/
  level : Int := 0
  /-- Open `BEGIN` blocks. -/
  blocks : Nat := 0
  /-- The statement creates something, so its blocks belong to a routine. -/
  creates : Bool := false
  inCase : Bool := false
  /-- Only blanks and comments stand between the last `BEGIN` and here. -/
  justBegun : Bool := false
  /-- The statement has ended; blanks and line comments may still be part of it. -/
  ended : Bool := false
deriving DecidableEq, Repr

def transactionWords : List String :=
  ["TRANSACTION", "WORK", "TRAN", "DISTRIBUTED", "DEFERRED", "IMMEDIATE", "EXCLUSIVE"]

def Depth.afterKeyword (s : Depth) (role : Role) (word : List Char) : Depth :=
  let text := String.ofList (Text.upper word)
  if role = .definition && "CREATE".toList.isPrefixOf text.toList then { s with creates := true }
  else if text = "DECLARE" && s.creates && s.blocks = 0 then { s with level := s.level + 1 }
  else if text = "BEGIN" then
    { s with blocks := s.blocks + 1, justBegun := true, level := if s.creates then s.level + 1 else s.level }
  else if s.justBegun && role = .general && transactionWords.contains text then
    { s with blocks := s.blocks - 1, justBegun := false }
  else if text = "END" then
    if s.inCase then { s with inCase := false, level := s.level - 1 }
    else { s with blocks := s.blocks - 1, level := s.level - 1 }
  else if ["IF", "FOR", "WHILE", "CASE"].contains text && s.creates && 0 < s.blocks then
    { s with inCase := s.inCase || text = "CASE", level := s.level + 1 }
  else if ["END IF", "END FOR", "END WHILE"].contains text then { s with level := s.level - 1 }
  else s

def Depth.change (s : Depth) (t : Token) : Depth :=
  match t.kind with
  | .keyword role => s.afterKeyword role t.text
  | _ =>
    if t.isMark '(' then { s with level := s.level + 1 }
    else if t.isMark ')' then { s with level := s.level - 1 }
    else s

/-- A semicolon ends the statement unless something is open; so does the word `GO`. -/
def Depth.close (s : Depth) (t : Token) : Depth :=
  if t.isMark ';' then
    let blocks := if s.justBegun then s.blocks - 1 else s.blocks
    { s with blocks := blocks, justBegun := false, ended := s.ended || (s.level ≤ 0 && blocks = 0) }
  else if t.kind = .keyword .general && Text.firstWord t.text = ['G', 'O'] then { s with ended := true }
  else if t.isSpace || t.isComment || (t.kind = .keyword .general && Text.upper t.text = "BEGIN".toList) then s
  else { s with justBegun := false }

def Depth.next (s : Depth) (t : Token) : Depth := (s.change t).close t

/-- What may still follow the end of a statement as part of it. -/
def trails (t : Token) : Bool := t.kind == .blank || t.kind == .lineComment

/-- Cuts the tokens behind a statement begun with `current`, its last token first. -/
def splitFrom (s : Depth) (current : List Token) : List Token → List (List Token)
  | [] => if current.all (·.isSpace) then [] else [current.reverse]
  | t :: rest =>
    if s.ended && !trails t then current.reverse :: splitFrom (({} : Depth).next t) [t] rest
    else splitFrom (s.next t) (t :: current) rest

/-- The statements of a text, as tokens. White space at the end is dropped if it would be a statement alone. -/
def split (tokens : List Token) : List (List Token) := splitFrom {} [] tokens

end SqlSchema.Statement
