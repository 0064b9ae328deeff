import SqlSchema.Proofs.Attempt
import SqlSchema.Statement.Kind
import SqlSchema.Statement.Strip

/-! Statements that are nested too deep. They are all that stops a text from being freed from comments, or from being
told by its kind. -/
namespace SqlSchema.Statement

/-- Some statement of the text is nested deeper than statements are read. -/
def TooDeep (cs : List Char) : Prop := ∃ tokens ∈ split (Token.scan cs), nestingLimit < nesting tokens

theorem tooDeep_iff (cs : List Char) :
    TooDeep cs ↔ ((split (Token.scan cs)).any fun tokens => nestingLimit < nesting tokens) = true := by
  simp [TooDeep]

theorem strip_eq_error_iff (d : Dialect) (cs : List Char) (i : Interruption) :
    strip d cs = .error i ↔ TooDeep cs ∧ i = .nestingTooDeep := by
  rw [strip, Attempt.map_eq_error, plainText, tooDeep_iff]
  split
  next deep => simp [deep, eq_comm]
  next flat => simp [flat]

theorem classify_eq_error_iff (cs : List Char) (i : Interruption) :
    classify cs = .error i ↔ TooDeep cs ∧ i = .nestingTooDeep := by
  rw [classify, tooDeep_iff]
  split
  next deep => simp [deep, eq_comm]
  next flat => simp [flat]

theorem not_tooDeep_nil : ¬ TooDeep [] := by
  rw [tooDeep_iff]
  decide +kernel

end SqlSchema.Statement
