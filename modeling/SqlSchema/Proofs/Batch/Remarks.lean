import SqlSchema.Proofs.Batch.Concatenation
import SqlSchema.Proofs.Statement.Remarks

/-! Batches with comments between their statements. A segment may be left out where nothing but comments stands in it and
nothing of them is left; and nowhere else. -/
namespace SqlSchema.Batch
open Text Statement Attempt

theorem pieces_of_uncut (c : String) (uncut : ';' ∉ c.toList) :
    pieces c = if trim c.toList = [] then [] else [String.ofList (trim c.toList)] := by
  have single : ([';'].intercalate [c.toList]).splitOn ';' = [c.toList] :=
    List.splitOn_intercalate ';' (List.forall_mem_singleton.mpr uncut) (List.cons_ne_nil _ _)
  rw [List.intercalate_singleton] at single
  rw [pieces, single]
  split
  next empty => simp [empty]
  next filled => simp [filled]

/-- A skipped step changes nothing. -/
theorem ofSteps_skipped (front more : List Step) (text : String) :
    ofSteps (front ++ .skipped text :: more) = ofSteps (front ++ more) := by
  have undefined : (Step.skipped text).definition? = none := rfl
  have passed : (Step.skipped text).rejection? = none := rfl
  simp [ofSteps, List.findSome?_append, undefined, passed]

theorem read_of_comment (d : Dialect) (front more : List String) (piece : String) (comment : isComment d piece = true) :
    (stepsOf d (front ++ piece :: more)).map ofSteps = (stepsOf d (front ++ more)).map ofSteps := by
  rw [stepsOf_append, stepsOf_append, stepsOf_of_comment d piece more comment]
  cases stepsOf d front with
  | error i => rfl
  | ok run =>
    dsimp only
    split
    · rfl
    · cases stepsOf d more with
      | error i => rfl
      | ok later => exact congrArg Except.ok (ofSteps_skipped run later piece)

/-- A piece of which something is left does not go without a trace. -/
theorem read_of_filled (d : Dialect) (piece : String) (filled : isComment d piece = false) :
    (stepsOf d [piece]).map ofSteps ≠ .ok {} := by
  intro silent
  rw [stepsOf_cons, step_of_statement d piece filled] at silent
  cases outcome : (Definition.read d piece).run with
  | error i =>
    rw [outcome] at silent
    cases silent
  | ok result =>
    rw [outcome] at silent
    cases result with
    | ok definition => exact absurd (congrArg Batch.definitions (Except.ok.inj silent)) (List.cons_ne_nil _ _)
    | error e => exact absurd (congrArg Batch.stoppedBy (Except.ok.inj silent)) (Option.some_ne_none e)

/-- The segment may be left out between any two texts. -/
def Transparent (d : Dialect) (c : String) : Prop :=
  ∀ a b, Batch.read d (a ++ ";" ++ c ++ ";" ++ b) = Batch.read d (a ++ ";" ++ b)

theorem strip_nil (d : Dialect) : strip d [] = .ok [] := by
  cases d <;> decide +kernel

theorem transparent_iff (d : Dialect) (c : String) (uncut : ';' ∉ c.toList) :
    Transparent d c ↔ strip d (trim c.toList) = .ok [] := by
  have whole (a b : String) : pieces (a ++ ";" ++ c ++ ";" ++ b) = pieces a ++ (pieces c ++ pieces b) := by
    rw [pieces_append, pieces_append, List.append_assoc]
  have parts := pieces_of_uncut c uncut
  have same : isComment d (String.ofList (trim c.toList)) = true ↔ strip d (trim c.toList) = .ok [] := by
    rw [isComment_iff, String.toList_ofList]
  by_cases empty : trim c.toList = []
  · rw [if_pos empty] at parts
    refine iff_of_true (fun a b => ?_) (empty ▸ strip_nil d)
    rw [Batch.read, Batch.read, steps, steps, whole, parts, pieces_append, List.nil_append]
  · rw [if_neg empty] at parts
    refine ⟨fun transparent => ?_, fun stripped a b => ?_⟩
    · by_contra left
      have filled := Bool.not_eq_true _ ▸ mt same.mp left
      refine read_of_filled d _ filled ?_
      have alone := transparent "" ""
      rw [Batch.read, Batch.read, steps, steps, whole, parts] at alone
      exact alone
    · rw [Batch.read, Batch.read, steps, steps, whole, parts, pieces_append]
      exact read_of_comment d _ _ _ (same.mpr stripped)

/-- Segments of white space and plain comments are transparent, unless they are too deep to be read. -/
theorem transparent_remarks (d : Dialect) (c : String) (remarks : Remarks d Remark.Plain c.toList)
    (uncut : ';' ∉ c.toList) : Transparent d c ↔ ¬ TooDeep (trim c.toList) :=
  (transparent_iff d c uncut).trans remarks.trim.strip_iff

/-- Three comments, with what would open others elsewhere. -/
theorem transparent_remarks_mixed :
    Remarks .mysql Remark.Plain " #(-- \n/*'#*/# don't".toList ∧ ';' ∉ " #(-- \n/*'#*/# don't".toList ∧
      Transparent .mysql " #(-- \n/*'#*/# don't" := by
  have first : (Remark.hash "(-- ".toList).Plain := .inr ⟨by decide +kernel, by decide +kernel⟩
  have second : (Remark.block "'#".toList).Plain := (by decide +kernel : "'#".toList.head? ≠ some '+')
  have third : (Remark.hash " don't".toList).Plain := .inl ⟨"don't".toList, by decide +kernel, by decide +kernel⟩
  have split : " #(-- \n/*'#*/# don't".toList = ' ' :: ((Remark.hash "(-- ".toList).chars ++
      '\n' :: ((Remark.block "'#".toList).chars ++ ((Remark.hash " don't".toList).chars ++ []))) := by decide +kernel
  have remarks : Remarks .mysql Remark.Plain " #(-- \n/*'#*/# don't".toList := by
    rw [split]
    refine .blank (by decide) (.remark first ⟨rfl, by decide +kernel, ?_⟩ (.blank (by decide) (.remark second ?_
      (.remark third ⟨rfl, by decide +kernel, nofun⟩ .nil))))
    · exact fun c head => (Option.some.inj head) ▸ (by decide)
    · exact (by decide +kernel : ¬ ['*', '/'] <:+: "'#".toList)
  have uncut : ';' ∉ " #(-- \n/*'#*/# don't".toList := by decide +kernel
  have shallow : ¬ TooDeep (trim " #(-- \n/*'#*/# don't".toList) := by
    rw [tooDeep_iff]
    decide +kernel
  exact ⟨remarks, uncut, (transparent_remarks _ _ remarks uncut).mpr shallow⟩

/-- A hint is left, and no statement begins with it. -/
theorem not_transparent_hint :
    Remarks .mysql (fun _ => True) "/*+ x */".toList ∧ ';' ∉ "/*+ x */".toList ∧
      Batch.read .mysql ("" ++ ";" ++ "/*+ x */" ++ ";" ++ "") ≠ Batch.read .mysql ("" ++ ";" ++ "") := by
  have split : "/*+ x */".toList = (Remark.block "+ x ".toList).chars ++ [] := by decide +kernel
  have remarks : Remarks .mysql (fun _ => True) "/*+ x */".toList := by
    rw [split]
    exact .remark trivial (by decide +kernel : ¬ ['*', '/'] <:+: "+ x ".toList) .nil
  have left : isComment .mysql "/*+ x */" = false := by decide +kernel
  have alone : pieces ("" ++ ";" ++ "/*+ x */" ++ ";" ++ "") = ["/*+ x */"] := by decide +kernel
  refine ⟨remarks, by decide +kernel, fun same => read_of_filled .mysql _ left ?_⟩
  rw [Batch.read, steps, alone] at same
  exact same

end SqlSchema.Batch
