import SqlSchema.Document
import SqlSchema.Text.Hex

/-! JSON text of documents, every item and every entry on a line of its own. Characters beyond ASCII are written as
they are. -/
namespace SqlSchema.Document.Json
open Text

def escape (c : Char) : List Char :=
  match c with
  | '\x22' => ['\\', '\x22']
  | '\\' => ['\\', '\\']
  | '\n' => ['\\', 'n']
  | '\r' => ['\\', 'r']
  | '\t' => ['\\', 't']
  | '\x0c' => ['\\', 'f']
  | '\x08' => ['\\', 'b']
  | c => if c.toNat < 0x20 then '\\' :: 'u' :: hex 4 c.toNat else [c]

def quote (text : String) : List Char := '\x22' :: text.toList.flatMap escape ++ ['\x22']

/-- A new line, two spaces further to the right for every level. -/
def newLine (level : Nat) : List Char := '\n' :: List.replicate (2 * level) ' '

mutual

/-- The text of a document inside `level` lists and mappings. -/
def write (level : Nat) : Document → List Char
  | .null => "null".toList
  | .bool value => (if value then "true" else "false").toList
  | .integer value => (toString value).toList
  | .float value => value.text.toList
  | .text value => quote value
  | .list [] => ['[', ']']
  | .list (item :: rest) =>
    '[' :: newLine (level + 1) ++ write (level + 1) item ++ writeItems (level + 1) rest ++ newLine level ++ [']']
  | .mapping [] => ['\x7b', '\x7d']
  | .mapping ((key, value) :: rest) =>
    '\x7b' :: newLine (level + 1) ++ quote key ++ ':' :: ' ' :: write (level + 1) value ++
      writeEntries (level + 1) rest ++ newLine level ++ ['\x7d']

def writeItems (level : Nat) : List Document → List Char
  | [] => []
  | item :: rest => ',' :: newLine level ++ write level item ++ writeItems level rest

def writeEntries (level : Nat) : List (String × Document) → List Char
  | [] => []
  | (key, value) :: rest =>
    ',' :: newLine level ++ quote key ++ ':' :: ' ' :: write level value ++ writeEntries level rest

end

end Json

def json (document : Document) : String := String.ofList (Json.write 0 document)

end SqlSchema.Document
