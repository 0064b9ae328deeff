import SqlSchema.Interruption
import SqlSchema.Reader.Rule

/-! Why a statement is rejected. A rejection is about the statement alone; together with the statement's text it
makes the message that users see. -/
namespace SqlSchema

inductive SyntaxFault where
  | emptyStatement
  /-- The first word begins no statement. -/
  | unknownStatement (word : String)
  | expected (e : Reader.Expectation)
deriving Repr

def SyntaxFault.message : SyntaxFault → String
  | .emptyStatement => "empty statement"
  | .unknownStatement word => "unrecognized statement '" ++ word ++ "'"
  | .expected e => e.message

structure SyntaxError where
  position : Nat
  fault : SyntaxFault
deriving Repr

def SyntaxError.message (e : SyntaxError) : String :=
  "syntax error at position " ++ toString e.position ++ ": " ++ e.fault.message

inductive NumberKind where
  | integer
  | float
deriving DecidableEq, Repr

namespace NumberKind

def name : NumberKind → String
  | .integer => "integer"
  | .float => "float"

end NumberKind

inductive Rejection where
  | syntaxError (e : SyntaxError)
  /-- A statement of the given kind, which says nothing about the schema. -/
  | otherStatement (kind : String)
  | unsupportedAction (action : String)
  | missingIndexSpec (action : String)
  | malformedNumber (kind : NumberKind) (raw : String)
deriving Repr

namespace Rejection

def name : Rejection → String
  | .syntaxError _ => "SQLSyntaxError"
  | .otherStatement _ => "UnsupportedStatementError"
  | .unsupportedAction _ => "UnsupportedActionError"
  | .missingIndexSpec _ => "MissingIndexSpecError"
  | .malformedNumber _ _ => "MalformedNumericLiteralError"

def message : Rejection → String
  | .syntaxError e => e.message
  | .otherStatement _ => "unsupported type of SQL (only DDL is supported)"
  | .unsupportedAction action =>
    "unsupported type of DDL action (only 'CREATE TABLE', 'CREATE INDEX', 'ALTER TABLE ADD INDEX' and " ++
      "'ALTER TABLE ADD PRIMARY KEY' are supported) '" ++ action ++ "'"
  | .missingIndexSpec action => "no index specification on '" ++ action ++ "' statement"
  | .malformedNumber kind raw => "malformed " ++ kind.name ++ " literal '" ++ raw ++ "'"

end Rejection

structure StatementError where
  rejection : Rejection
  statement : String
deriving Repr

/-- The reason, followed by the statement unless it is empty. -/
def StatementError.message (e : StatementError) : String :=
  e.rejection.message ++ if e.statement.isEmpty then "" else ": " ++ e.statement

/-- A computation that may be interrupted as a whole or end with an error of its own. -/
abbrev Attempt (ε α : Type) := ExceptT ε (Except Interruption) α

namespace Attempt

variable {ε α : Type}

def interrupt (i : Interruption) : Attempt ε α := ExceptT.mk (.error i)

end Attempt
end SqlSchema
