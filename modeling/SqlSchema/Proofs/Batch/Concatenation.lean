import SqlSchema.Proofs.Batch.Step

/-! Reading two texts with a semicolon between them. The second one is read as if it stood alone, unless the first
one ends the run: by a rejected statement or by an interruption. -/
namespace SqlSchema.Batch

/-- What two batches make, the first of which is complete. -/
def followedBy (first second : Batch) : Batch :=
  { definitions := first.definitions ++ second.definitions, stoppedBy := second.stoppedBy }

theorem stepsOf_append (d : Dialect) (first second : List String) :
    stepsOf d (first ++ second) =
      match stepsOf d first with
      | .ok run => if run.any Step.stops then .ok run else (stepsOf d second).map (run ++ ·)
      | .error i => .error i := by
  induction first with
  | nil =>
    change stepsOf d second = (stepsOf d second).map ([] ++ ·)
    cases stepsOf d second <;> rfl
  | cons piece rest ih =>
    rw [List.cons_append, stepsOf_cons, stepsOf_cons, ih]
    cases step d piece with
    | error i => rfl
    | ok s =>
      cases stop : s.stops with
      | true => simp [stop]
      | false =>
        cases stepsOf d rest with
        | error i => simp [Except.map, stop]
        | ok more =>
          cases stopped : more.any Step.stops with
          | true => simp [Except.map, stop, stopped]
          | false => cases stepsOf d second <;> simp [Except.map, stop, stopped]

theorem isComplete_ofSteps (run : List Step) : (ofSteps run).isComplete = !run.any Step.stops := by
  rw [Bool.eq_iff_iff]
  simp [ofSteps, isComplete, Step.stops]

theorem ofSteps_append (first second : List Step) (passed : first.any Step.stops = false) :
    ofSteps (first ++ second) = (ofSteps first).followedBy (ofSteps second) := by
  have clear : first.findSome? Step.rejection? = none := by
    refine List.findSome?_eq_none_iff.mpr fun s member => ?_
    simpa [Step.stops] using List.any_eq_false.mp passed s member
  simp [ofSteps, followedBy, List.findSome?_append, clear]

/-- A batch made of two texts: a complete first one is followed by the second, whatever that gives; one that is
stopped or interrupted is the result, whatever the second holds. -/
theorem read_append (d : Dialect) (first second : String) :
    read d (first ++ ";" ++ second) =
      match read d first with
      | .ok batch => if batch.isComplete then (read d second).map batch.followedBy else .ok batch
      | .error i => .error i := by
  simp only [read, steps, pieces_append, stepsOf_append]
  cases stepsOf d (pieces first) with
  | error i => rfl
  | ok run =>
    simp only [Except.map, isComplete_ofSteps]
    cases stopped : run.any Step.stops with
    | true => rfl
    | false =>
      cases stepsOf d (pieces second) with
      | error i => rfl
      | ok more => simp [ofSteps_append run more stopped]

end SqlSchema.Batch
