import SqlSchema.Text.Hex
import SqlSchema.Text.Printable

/-! Texts as messages show them: between quotes, with what cannot be shown written as an escape. -/
namespace SqlSchema.Text

/-- A single quote encloses a text unless the text has one and has no double quote. -/
def inspectMark (cs : List Char) : Char :=
  if cs.contains '\x27' && !cs.contains '\x22' then '\x22' else '\x27'

/-- A character between marks: the mark and the backslash are escaped, tab and line ends have letters, and
other characters that cannot be shown are written by number. -/
def inspectChar (mark c : Char) : List Char :=
  if c = mark ∨ c = '\\' then ['\\', c]
  else if c = '\t' then ['\\', 't']
  else if c = '\n' then ['\\', 'n']
  else if c = '\r' then ['\\', 'r']
  else if isPrintable c then [c]
  else if c.toNat < 0x100 then '\\' :: 'x' :: hex 2 c.toNat
  else if c.toNat < 0x10000 then '\\' :: 'u' :: hex 4 c.toNat
  else '\\' :: 'U' :: hex 8 c.toNat

def inspect (text : String) : String :=
  let cs := text.toList
  let mark := inspectMark cs
  String.ofList (mark :: cs.flatMap (inspectChar mark) ++ [mark])

end SqlSchema.Text
