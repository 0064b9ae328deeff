/-! The two dialects of SQL. -/
namespace SqlSchema

inductive Dialect where
  | mysql
  | postgres
deriving DecidableEq, Repr

namespace Dialect

def name : Dialect → String
  | .mysql => "mysql"
  | .postgres => "postgres"

def all : List Dialect := [.mysql, .postgres]

def ofName? (text : String) : Option Dialect := all.find? (·.name == text)

theorem ofName?_name (d : Dialect) : ofName? d.name = some d := by
  cases d <;> decide

theorem ofName?_eq_some_iff (text : String) (d : Dialect) : ofName? text = some d ↔ text = d.name := by
  constructor
  · intro found
    have matched := List.find?_some found
    simp at matched
    exact matched.symm
  · rintro rfl
    exact ofName?_name d

end Dialect
end SqlSchema
