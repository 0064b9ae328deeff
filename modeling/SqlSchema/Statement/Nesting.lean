import SqlSchema.Token.Basic

/-! How deep parentheses are nested. Only pairs count: a parenthesis that is never closed nests nothing. -/
namespace SqlSchema.Statement

/-- The greatest number of parentheses pairs one inside the other. The list holds, for every open parenthesis, the
depth of the pairs already closed inside it. -/
def nestingFrom (deepest : Nat) (inside : List Nat) : List Token → Nat
  | [] => deepest
  | t :: rest =>
    if t.isMark '(' then nestingFrom deepest (0 :: inside) rest
    else if t.isMark ')' then
      match inside with
      | [] => nestingFrom deepest [] rest
      | depth :: outer =>
        let pair := depth + 1
        let around := match outer with
          | [] => []
          | d :: more => max d pair :: more
        nestingFrom (max deepest pair) around rest
    else nestingFrom deepest inside rest

def nesting (tokens : List Token) : Nat := nestingFrom 0 [] tokens

/-- Statements nested deeper than this are not read. -/
def nestingLimit : Nat := 100

end SqlSchema.Statement
