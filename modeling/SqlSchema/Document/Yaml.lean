import SqlSchema.Yaml.Scalar

/-! YAML text of documents in block style. Items of a list stand at the indent of the key above them, and what follows
a key or a dash is two columns further to the right. -/
namespace SqlSchema.Document.Yaml
open SqlSchema.Yaml

/-- Writes a document that takes no lines of its own. -/
def writeInline (indent column : Nat) : Document → List Char
  | .null => "null".toList
  | .bool value => (if value then "true" else "false").toList
  | .integer value => (toString value).toList
  | .float value => writeFloat value
  | .text value => writeText indent column value
  | .list _ => ['[', ']']
  | .mapping _ => ['\x7b', '\x7d']

def writeKey (indent : Nat) (key : String) : List Char := writeText indent indent key ++ [':']

mutual

/-- What follows a dash at the given indent. -/
def afterDash (indent : Nat) : Document → List Char
  | .list (item :: rest) => ' ' :: '-' :: afterDash (indent + 2) item ++ moreItems (indent + 2) rest
  | .mapping ((key, value) :: rest) =>
    let name := writeKey (indent + 2) key
    ' ' :: name ++ afterKey (indent + 2) (indent + 2 + name.length) value ++ moreEntries (indent + 2) rest
  | inline => ' ' :: writeInline (indent + 2) (indent + 2) inline

/-- What follows a key at the given indent, from a column on. -/
def afterKey (indent column : Nat) : Document → List Char
  | .list (item :: rest) => newLine indent ++ '-' :: afterDash indent item ++ moreItems indent rest
  | .mapping ((key, value) :: rest) =>
    let name := writeKey (indent + 2) key
    newLine (indent + 2) ++ name ++ afterKey (indent + 2) (indent + 2 + name.length) value ++
      moreEntries (indent + 2) rest
  | inline => ' ' :: writeInline (indent + 2) (column + 1) inline

def moreItems (indent : Nat) : List Document → List Char
  | [] => []
  | item :: rest => newLine indent ++ '-' :: afterDash indent item ++ moreItems indent rest

def moreEntries (indent : Nat) : List (String × Document) → List Char
  | [] => []
  | (key, value) :: rest =>
    let name := writeKey indent key
    newLine indent ++ name ++ afterKey indent (indent + name.length) value ++ moreEntries indent rest

end

def write : Document → List Char
  | .list (item :: rest) => '-' :: afterDash 0 item ++ moreItems 0 rest
  | .mapping ((key, value) :: rest) =>
    let name := writeKey 0 key
    name ++ afterKey 0 name.length value ++ moreEntries 0 rest
  | inline => writeInline 0 0 inline

end Yaml

def yaml (document : Document) : String := String.ofList (Yaml.write document ++ ['\n'])

end SqlSchema.Document
