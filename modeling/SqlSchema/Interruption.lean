/-! Failures that are no property of one statement's content alone. They end a whole run, where a rejected statement
only ends its batch. -/
namespace SqlSchema

inductive Interruption where
  | nestingTooDeep
  /-- An integer literal of more digits than are converted. -/
  | integerTooLong (digits : Nat)
  /-- An index statement without a table. -/
  | tableMissing
  | unknownKeyOption (code : Int)
deriving DecidableEq, Repr

namespace Interruption

/-- Integers of more digits are not converted. -/
def digitLimit : Nat := 4300

def message : Interruption → String
  | .nestingTooDeep => "Maximum grouping depth exceeded (100)."
  | .integerTooLong digits =>
    "Exceeds the limit (4300 digits) for integer string conversion: value has " ++ toString digits ++
      " digits; use sys.set_int_max_str_digits() to increase the limit"
  | .tableMissing => "'NoneType' object has no attribute 'name'"
  | .unknownKeyOption code => toString code

end Interruption
end SqlSchema
