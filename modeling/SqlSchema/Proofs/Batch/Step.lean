import SqlSchema.Proofs.Batch.Pieces
import SqlSchema.Proofs.Definition
import SqlSchema.Proofs.Definition.Untouched

/-! One piece of a batch. A piece of nothing but comments is skipped; what becomes of any other is what becomes of
reading it alone. -/
namespace SqlSchema.Batch
open Attempt

/-- A piece that is empty without its comments. -/
def isComment (d : Dialect) (piece : String) : Bool :=
  match Statement.strip d piece.toList with
  | .ok plain => plain.isEmpty
  | .error _ => false

/-- The step ends the batch. -/
def Step.stops (s : Step) : Bool := s.rejection?.isSome

theorem isComment_iff (d : Dialect) (piece : String) :
    isComment d piece = true ↔ Statement.strip d piece.toList = .ok [] := by
  unfold isComment
  split
  next plain found => simp [found]
  next i found => simp [found]

theorem not_isComment_of_untouched (d : Dialect) {piece : String} (untouched : Untouched piece) :
    isComment d piece = false := by
  simpa [isComment, untouched.strip d] using untouched.2.filled

theorem read_stops_of_strip (d : Dialect) (text : String) (i : Interruption)
    (stuck : Statement.strip d text.toList = .error i) : (Definition.read d text).Stops i := by
  simp only [Definition.read, stops_adapt, Definition.ofText, breaks_bind]
  exact .inl (by simp [Tree.read, stuck])

theorem step_of_comment (d : Dialect) (piece : String) (comment : isComment d piece = true) :
    step d piece = .ok (.skipped piece) := by
  rw [isComment_iff] at comment
  simp [step, comment, bind, Except.bind, pure, Except.pure]

theorem step_of_statement (d : Dialect) (piece : String) (filled : isComment d piece = false) :
    step d piece =
      match (Definition.read d piece).run with
      | .ok (.ok definition) => .ok (.defined definition)
      | .ok (.error e) => .ok (.rejected e)
      | .error i => .error i := by
  cases stripped : Statement.strip d piece.toList with
  | error i =>
    rw [(stops_iff _ _).mp (read_stops_of_strip d piece i stripped)]
    simp [step, stripped, bind, Except.bind]
  | ok plain =>
    have some : plain.isEmpty = false := by simpa [isComment, stripped] using filled
    simp only [step, stripped, some, bind, Except.bind, pure, Except.pure]
    cases (Definition.read d piece).run with
    | error i => rfl
    | ok outcome => cases outcome <;> rfl

theorem stepsOf_cons (d : Dialect) (piece : String) (rest : List String) :
    stepsOf d (piece :: rest) =
      match step d piece with
      | .ok s => if s.stops then .ok [s] else (stepsOf d rest).map (s :: ·)
      | .error i => .error i := by
  rw [stepsOf]
  cases step d piece with
  | error i => rfl
  | ok s =>
    change (if s.stops then _ else _) = if s.stops then _ else _
    split
    · rfl
    · cases stepsOf d rest <;> rfl

section Outcomes
variable (d : Dialect) (piece : String) (rest : List String)

theorem stepsOf_of_comment (comment : isComment d piece = true) :
    stepsOf d (piece :: rest) = (stepsOf d rest).map (.skipped piece :: ·) := by
  rw [stepsOf_cons, step_of_comment d piece comment]
  rfl

theorem stepsOf_of_gives (definition : Definition) (filled : isComment d piece = false)
    (given : (Definition.read d piece).Gives definition) :
    stepsOf d (piece :: rest) = (stepsOf d rest).map (.defined definition :: ·) := by
  rw [stepsOf_cons, step_of_statement d piece filled, given]
  rfl

theorem stepsOf_of_rejects (e : StatementError) (filled : isComment d piece = false)
    (rejected : (Definition.read d piece).Rejects e) : stepsOf d (piece :: rest) = .ok [.rejected e] := by
  rw [stepsOf_cons, step_of_statement d piece filled, (rejects_iff _ _).mp rejected]
  rfl

theorem stepsOf_of_stops (i : Interruption) (filled : isComment d piece = false)
    (stopped : (Definition.read d piece).Stops i) : stepsOf d (piece :: rest) = .error i := by
  rw [stepsOf_cons, step_of_statement d piece filled, (stops_iff _ _).mp stopped]

end Outcomes

/-- A text with one piece defines what that piece does. -/
theorem read_of_gives {d : Dialect} {text piece : String} {definition : Definition} (cut : pieces text = [piece])
    (filled : isComment d piece = false) (given : (Definition.read d piece).Gives definition) :
    read d text = .ok { definitions := [definition] } := by
  rw [read, steps, cut, stepsOf_of_gives d piece [] definition filled given]
  rfl

end SqlSchema.Batch
