/-! Shapes of text, as messages describe them. A shape is what a reader hoped to find; its text follows the rules
below, so that long descriptions need not be written out. -/
namespace SqlSchema.Reader

inductive Shape where
  | keyword (word : String)
  | mark (text : String)
  | named (name : String)
  | pattern (text : String)
  | letters (text : String)
  | sequence (parts : List Shape)
  | choice (parts : List Shape)
  | optional (inner : Shape)
  /-- Read, but not kept. -/
  | silent (inner : Shape)
  | grouped (inner : Shape)
  | listOf (inner : Shape)
  | without (inner : Shape)
deriving Repr

namespace Shape

def braced (text : String) : String := "\x7b" ++ text ++ "\x7d"

mutual

def text : Shape → String
  | .keyword word => "'" ++ word ++ "'"
  | .mark sign => "'" ++ sign ++ "'"
  | .named name => name
  | .pattern source => "Re:('" ++ source ++ "')"
  | .letters range => "W:(" ++ range ++ ")"
  | .sequence parts => braced (" ".intercalate (texts parts))
  | .choice parts => braced (" | ".intercalate (texts parts))
  | .optional inner => "[" ++ bare inner ++ "]"
  | .silent inner => "Suppress:(" ++ inner.text ++ ")"
  | .grouped inner => "Group:(" ++ inner.text ++ ")"
  | .listOf inner => inner.text ++ " [, " ++ inner.text ++ "]..."
  | .without inner => "~" ++ braced inner.text

/-- The text without the braces of a sequence or a choice. -/
def bare : Shape → String
  | .sequence parts => " ".intercalate (texts parts)
  | .choice parts => " | ".intercalate (texts parts)
  | .keyword word => "'" ++ word ++ "'"
  | .mark sign => "'" ++ sign ++ "'"
  | .named name => name
  | .pattern source => "Re:('" ++ source ++ "')"
  | .letters range => "W:(" ++ range ++ ")"
  | .optional inner => "[" ++ bare inner ++ "]"
  | .silent inner => "Suppress:(" ++ inner.text ++ ")"
  | .grouped inner => "Group:(" ++ inner.text ++ ")"
  | .listOf inner => inner.text ++ " [, " ++ inner.text ++ "]..."
  | .without inner => "~" ++ braced inner.text

def texts : List Shape → List String
  | [] => []
  | part :: rest => part.text :: texts rest

end

end Shape
end SqlSchema.Reader
