import SqlSchema.Text.Ranges

/-! White space, and what is cut at it: trimming and the first word of a text. -/
namespace SqlSchema.Text

/-- The white space of Unicode and the four information separators of ASCII. -/
def blankRanges : List (Nat × Nat) := [
  (0x9, 0xd), (0x1c, 0x20), (0x85, 0x85), (0xa0, 0xa0), (0x1680, 0x1680), (0x2000, 0x200a),
  (0x2028, 0x2029), (0x202f, 0x202f), (0x205f, 0x205f), (0x3000, 0x3000)]

def isBlank (c : Char) : Bool := inRanges blankRanges c.toNat

def isLineEnd (c : Char) : Bool := c == '\n' || c == '\r'

def trimLeft (cs : List Char) : List Char := cs.dropWhile isBlank

def trimRight (cs : List Char) : List Char := (cs.reverse.dropWhile isBlank).reverse

def trim (cs : List Char) : List Char := trimRight (trimLeft cs)

/-- The characters up to the first white space, once leading white space is gone. -/
def firstWord (cs : List Char) : List Char := (trimLeft cs).takeWhile (!isBlank ·)

end SqlSchema.Text
