import SqlSchema.CommandLine.Run
import SqlSchema.Proofs.Attempt
import SqlSchema.Proofs.Batch.Step
import SqlSchema.Proofs.Definition.Untouched

/-! Runs over many files. What a run puts out is what each of its files gives, one behind the other; a rejected
statement shows in the code of the run and in nothing that other files give. A file that cannot be read to its end
ends the run, and what the files before it gave stays. -/
namespace SqlSchema.CommandLine
open Attempt

/-- The plan that a run with the arguments follows, and the names of its files. -/
def Asks (files : Files) (arguments : List String) (p : Plan) (names : List String) : Prop :=
  ∃ r : Request, parse arguments = .request r ∧ r.plan files = .ok p ∧ r.files = names

section Arguments

/-- Arguments that ask for a plan. The separator keeps names with a dash in front from being options. -/
def Plan.arguments (p : Plan) (names : List String) : List String :=
  ["--mode", p.dialect.name, "--format", p.format.name, "--log-level", p.level.name, "--"] ++ names

def Plan.request (p : Plan) (names : List String) : Request where
  files := names
  mode? := some p.dialect.name
  format? := some p.format.name
  logLevel? := some p.level.name

theorem operands_map (names : List String) : Argument.operands (names.map .operand) = names := by
  induction names with
  | nil => rfl
  | cons name rest ih => simp [Argument.operands, ih]

theorem dropWhile_map (names : List String) : (names.map Argument.operand).dropWhile Argument.isOperand = [] := by
  induction names with
  | nil => rfl
  | cons name rest ih => rw [List.map_cons, List.dropWhile_cons_of_pos rfl, ih]

theorem ofTexts_arguments (p : Plan) (names : List String) :
    Argument.ofTexts (p.arguments names) =
      [.option .mode none, .operand p.dialect.name, .option .format none, .operand p.format.name,
        .option .logLevel none, .operand p.level.name, .separator] ++ names.map .operand := by
  have mode : Argument.ofText p.dialect.name = .operand p.dialect.name := by cases p.dialect <;> decide
  have format : Argument.ofText p.format.name = .operand p.format.name := by cases p.format <;> decide
  have level : Argument.ofText p.level.name = .operand p.level.name := by cases p.level <;> decide
  have flags : Argument.ofText "--mode" = .option .mode none ∧ Argument.ofText "--format" = .option .format none ∧
      Argument.ofText "--log-level" = .option .logLevel none ∧ Argument.ofText "--" = .separator := by decide
  simp [Plan.arguments, Argument.ofTexts, mode, format, level, flags]

theorem collect_operands (r : Request) (names : List String) (first : r.files = []) (filled : names ≠ []) :
    collect r false (.separator :: names.map .operand) = .request { r with files := names } := by
  simp [collect, Argument.operands, operands_map, dropWhile_map, first, filled]

theorem parse_arguments (p : Plan) (names : List String) (filled : names ≠ []) :
    parse (p.arguments names) = .request (p.request names) := by
  have mode : Flag.mode.accepts p.dialect.name = true := by cases p.dialect <;> decide
  have format : Flag.format.accepts p.format.name = true := by cases p.format <;> decide
  have level : Flag.logLevel.accepts p.level.name = true := by cases p.level <;> decide
  rw [parse, ofTexts_arguments]
  simp [collect, mode, format, level, collect_operands, filled, Request.store, Plan.request]

theorem plan_request (files : Files) (p : Plan) (names : List String) : (p.request names).plan files = .ok p := by
  obtain ⟨dialect, format, level⟩ := p
  cases dialect <;> cases format <;> cases level <;> rfl

theorem asks_arguments (files : Files) (p : Plan) (names : List String) (filled : names ≠ []) :
    Asks files (p.arguments names) p names :=
  ⟨p.request names, parse_arguments p names filled, plan_request files p names, rfl⟩

end Arguments

/-- The batch that is read from a file, with its line ends unified. -/
def Files.Holds (files : Files) (p : Plan) (name : String) (b : Batch) : Prop :=
  ∃ content, files.text? name = some content ∧
    Batch.read p.dialect (String.ofList (Text.unifyLineEnds content.toList)) = .ok b

/-- A file that cannot be read to its end. -/
inductive Files.Fails (files : Files) (p : Plan) (name : String) : Failure → Prop where
  | missing (absent : files.text? name = none) : Fails files p name (.fileMissing name)
  | interrupted (content : String) (i : Interruption) (found : files.text? name = some content)
      (stuck : Batch.read p.dialect (String.ofList (Text.unifyLineEnds content.toList)) = .error i) :
      Fails files p name (.interrupted i)

/-- What is put out for batches, one behind the other. -/
def Plan.print (p : Plan) (batches : List Batch) : String :=
  String.join (batches.map fun b => b.write p.format ++ "\n")

theorem Plan.print_cons (p : Plan) (b : Batch) (batches : List Batch) :
    p.print (b :: batches) = b.write p.format ++ "\n" ++ p.print batches := by
  simp [Plan.print]

theorem Plan.print_append (p : Plan) (first second : List Batch) :
    p.print (first ++ second) = p.print first ++ p.print second := by
  simp [Plan.print]

section Steps
variable (files : Files) (p : Plan)

theorem holds_or_fails (name : String) : (∃ b, files.Holds p name b) ∨ ∃ f, files.Fails p name f := by
  cases found : files.text? name with
  | none => exact .inr ⟨_, .missing found⟩
  | some content =>
    cases read : Batch.read p.dialect (String.ofList (Text.unifyLineEnds content.toList)) with
    | error i => exact .inr ⟨_, .interrupted content i found read⟩
    | ok b => exact .inl ⟨b, content, found, read⟩

theorem report_of_fails {name : String} {f : Failure} (rest : List String) (fails : files.Fails p name f) :
    report files p (name :: rest) = ({}, some f) := by
  cases fails with
  | missing absent => simp [report, absent]
  | interrupted content i found stuck =>
    have stopped := (map_eq_error ..).mp stuck
    simp [report, found, Report.ofFile, stopped, bind, Except.bind]

/-- One file: its batch is put out in front of what the files behind it give. -/
theorem report_of_holds {name : String} {b : Batch} (rest : List String) (holds : files.Holds p name b) :
    ∃ first : Report, first.complete = b.isComplete ∧ first.output = b.write p.format ++ "\n" ∧
      report files p (name :: rest) = (first.append (report files p rest).1, (report files p rest).2) := by
  obtain ⟨content, found, read⟩ := holds
  obtain ⟨steps, taken, rfl⟩ := (map_eq_ok ..).mp read
  simp only [report, found, Report.ofFile, taken, bind, Except.bind, pure, Except.pure]
  exact ⟨_, rfl, rfl, rfl⟩

/-- Many files, whatever becomes of those behind them. -/
theorem report_append {names : List String} {batches : List Batch} (rest : List String)
    (hold : List.Forall₂ (files.Holds p) names batches) :
    ∃ first : Report, first.complete = batches.all Batch.isComplete ∧ first.output = p.print batches ∧
      report files p (names ++ rest) = (first.append (report files p rest).1, (report files p rest).2) := by
  induction hold with
  | nil => exact ⟨{}, rfl, rfl, by simp [Report.append]⟩
  | cons holds _ ih =>
    obtain ⟨more, complete, output, behind⟩ := ih
    obtain ⟨first, whole, printed, step⟩ := report_of_holds files p _ holds
    refine ⟨first.append more, ?_, ?_, ?_⟩
    · simp [Report.append, whole, complete]
    · simp [Report.append, printed, output, Plan.print_cons]
    · rw [List.cons_append, step, behind]
      simp [Report.append, Bool.and_assoc, String.append_assoc]

/-- Every list of files is read through, or up to the first one that fails. -/
theorem reads_or_fails (names : List String) :
    (∃ batches, List.Forall₂ (files.Holds p) names batches) ∨
      ∃ before name rest batches f, names = before ++ name :: rest ∧
        List.Forall₂ (files.Holds p) before batches ∧ files.Fails p name f := by
  induction names with
  | nil => exact .inl ⟨[], .nil⟩
  | cons name rest ih =>
    obtain ⟨b, holds⟩ | ⟨f, fails⟩ := holds_or_fails files p name
    · obtain ⟨batches, hold⟩ | ⟨before, other, behind, batches, f, split, hold, fails⟩ := ih
      · exact .inl ⟨b :: batches, .cons holds hold⟩
      · exact .inr ⟨name :: before, other, behind, b :: batches, f, by simp [split], .cons holds hold, fails⟩
    · exact .inr ⟨[], name, rest, [], f, rfl, .nil, fails⟩

end Steps

section Runs
variable (time : String) (files : Files) {arguments names : List String} {p : Plan}

theorem run_of_holds {batches : List Batch} (asks : Asks files arguments p names)
    (hold : List.Forall₂ (files.Holds p) names batches) :
    ∃ log, run time files arguments = .finished (batches.all Batch.isComplete) (p.print batches) log := by
  obtain ⟨r, parsed, planned, rfl⟩ := asks
  obtain ⟨first, complete, output, whole⟩ := report_append files p [] hold
  rw [List.append_nil] at whole
  refine ⟨logText time p (first.append {}), ?_⟩
  simp [run, parsed, planned, whole, report, Report.append, complete, output]

theorem run_of_fails {before rest : List String} {name : String} {batches : List Batch} {f : Failure}
    (asks : Asks files arguments p names) (split : names = before ++ name :: rest)
    (hold : List.Forall₂ (files.Holds p) before batches) (fails : files.Fails p name f) :
    ∃ log, run time files arguments = .failed f (p.print batches) log := by
  obtain ⟨r, parsed, planned, rfl⟩ := asks
  obtain ⟨first, -, output, whole⟩ := report_append files p (name :: rest) hold
  rw [report_of_fails files p rest fails] at whole
  refine ⟨logText time p (first.append {}), ?_⟩
  simp [run, parsed, planned, split, whole, Report.append, output]

theorem finished_iff (asks : Asks files arguments p names) (complete : Bool) (output : String) :
    (∃ log, run time files arguments = .finished complete output log) ↔
      ∃ batches, List.Forall₂ (files.Holds p) names batches ∧
        complete = batches.all Batch.isComplete ∧ output = p.print batches := by
  constructor
  · rintro ⟨log, finished⟩
    obtain ⟨batches, hold⟩ | ⟨before, name, rest, batches, f, split, hold, fails⟩ := reads_or_fails files p names
    · obtain ⟨_, ran⟩ := run_of_holds time files asks hold
      cases finished.symm.trans ran
      exact ⟨batches, hold, rfl, rfl⟩
    · obtain ⟨_, ran⟩ := run_of_fails time files asks split hold fails
      cases finished.symm.trans ran
  · rintro ⟨batches, hold, rfl, rfl⟩
    exact run_of_holds time files asks hold

theorem failed_iff (asks : Asks files arguments p names) (f : Failure) (output : String) :
    (∃ log, run time files arguments = .failed f output log) ↔
      ∃ before name rest batches, names = before ++ name :: rest ∧ List.Forall₂ (files.Holds p) before batches ∧
        files.Fails p name f ∧ output = p.print batches := by
  constructor
  · rintro ⟨log, failed⟩
    obtain ⟨batches, hold⟩ | ⟨before, name, rest, batches, g, split, hold, fails⟩ := reads_or_fails files p names
    · obtain ⟨_, ran⟩ := run_of_holds time files asks hold
      cases failed.symm.trans ran
    · obtain ⟨_, ran⟩ := run_of_fails time files asks split hold fails
      cases failed.symm.trans ran
      exact ⟨before, name, rest, batches, split, hold, fails, rfl⟩
  · rintro ⟨before, name, rest, batches, split, hold, fails, rfl⟩
    exact run_of_fails time files asks split hold fails

/-- The runs on two lists of files, and the run on both. -/
theorem run_append {first second : List String} {front behind : List String}
    (asks : Asks files arguments p (first ++ second)) (asksFirst : Asks files front p first)
    (asksSecond : Asks files behind p second) {whole also : Bool} {output more log next : String}
    (ranFirst : run time files front = .finished whole output log)
    (ranSecond : run time files behind = .finished also more next) :
    ∃ log, run time files arguments = .finished (whole && also) (output ++ more) log := by
  obtain ⟨batches, hold, rfl, rfl⟩ := (finished_iff time files asksFirst _ _).mp ⟨log, ranFirst⟩
  obtain ⟨others, held, rfl, rfl⟩ := (finished_iff time files asksSecond _ _).mp ⟨next, ranSecond⟩
  refine (finished_iff time files asks _ _).mpr ⟨batches ++ others, ?_, by simp, by rw [Plan.print_append]⟩
  exact List.rel_append hold held

end Runs

/-- A plan and files that are not none can always be asked for. A run puts out what its files give, one behind the
other, and its code is zero exactly if no batch is stopped; it fails exactly where a file does, with the output of
the files before. So the output of a run on two lists is that of the one and of the other, and its code the larger
one. -/
theorem run_files (time : String) (files : Files) (p : Plan) :
    (∀ names, names ≠ [] → ∃ arguments, Asks files arguments p names) ∧
    ∀ arguments names, Asks files arguments p names →
      (∀ output, (∃ complete log, run time files arguments = .finished complete output log) ↔
        ∃ batches, List.Forall₂ (files.Holds p) names batches ∧ output = p.print batches) ∧
      (∀ batches, List.Forall₂ (files.Holds p) names batches →
        ((run time files arguments).code = 0 ↔ ∀ b ∈ batches, b.stoppedBy = none)) ∧
      (∀ f output, (∃ log, run time files arguments = .failed f output log) ↔
        ∃ before name rest batches, names = before ++ name :: rest ∧
          List.Forall₂ (files.Holds p) before batches ∧ files.Fails p name f ∧ output = p.print batches) ∧
      ∀ first second front behind, names = first ++ second → Asks files front p first → Asks files behind p second →
        ∀ whole also output more log next, run time files front = .finished whole output log →
          run time files behind = .finished also more next →
            (∃ complete log, run time files arguments = .finished complete (output ++ more) log) ∧
              (run time files arguments).code = max (run time files front).code (run time files behind).code := by
  refine ⟨fun names filled => ⟨_, asks_arguments files p names filled⟩, fun arguments names asks =>
    ⟨fun output => ?_, fun batches hold => ?_, failed_iff time files asks, ?_⟩⟩
  · constructor
    · rintro ⟨complete, ran⟩
      obtain ⟨batches, hold, -, printed⟩ := (finished_iff time files asks complete output).mp ran
      exact ⟨batches, hold, printed⟩
    · rintro ⟨batches, hold, printed⟩
      exact ⟨_, (finished_iff time files asks _ output).mpr ⟨batches, hold, rfl, printed⟩⟩
  · obtain ⟨log, ran⟩ := run_of_holds time files asks hold
    rw [ran]
    simp [Outcome.code, Batch.isComplete]
  · intro first second front behind split asksFirst asksSecond whole also output more log next ranFirst ranSecond
    subst split
    obtain ⟨both, ran⟩ := run_append time files asks asksFirst asksSecond ranFirst ranSecond
    refine ⟨⟨_, both, ran⟩, ?_⟩
    rw [ran, ranFirst, ranSecond]
    cases whole <;> cases also <;> rfl

def sampleFiles : Files where
  text? name :=
    match name with
    | "index.sql" => some "ALTER TABLE a ADD INDEX b (c);\rDROP TABLE a"
    | "empty.sql" => some "# nothing\r\n"
    | _ => none
  settings? _ := none

/-- A file with a statement that is rejected: the files behind it are put out all the same, up to one that is
missing. -/
theorem run_files_sample :
    ∃ p : Plan, ∃ index empty : Batch, (index.isComplete = false ∧ empty.write p.format = "[]") ∧
      (∃ complete log, run "" sampleFiles (p.arguments ["index.sql", "empty.sql"]) =
        .finished complete (index.write p.format ++ "\n" ++ "[]\n") log) ∧
      (run "" sampleFiles (p.arguments ["index.sql", "empty.sql"])).code ≠ 0 ∧
      ∃ log, run "" sampleFiles (p.arguments ["index.sql", "gone.sql", "empty.sql"]) =
        .failed (.fileMissing "gone.sql") (index.write p.format ++ "\n") log := by
  let p : Plan := { dialect := .mysql, format := .json, level := .error }
  let text (content : String) : String := String.ofList (Text.unifyLineEnds content.toList)
  have altered : Untouched "ALTER TABLE a ADD INDEX b (c)" := by decide +kernel
  have given : (Definition.read .mysql "ALTER TABLE a ADD INDEX b (c)").Gives
      (.addIndex "ALTER TABLE a ADD INDEX b (c)" "a" { name := "b", type := "", columns := [{ column := "c" }] }) := by
    rw [Definition.read_of_untouched altered]
    decide +kernel
  have cut : Batch.pieces (text "ALTER TABLE a ADD INDEX b (c);\rDROP TABLE a") =
      ["ALTER TABLE a ADD INDEX b (c)", "DROP TABLE a"] := by decide +kernel
  let index : Batch :=
    { definitions := [.addIndex "ALTER TABLE a ADD INDEX b (c)" "a" { name := "b", type := "", columns := [{ column := "c" }] }]
      stoppedBy := some ⟨.unsupportedAction Tree.Action.drop, "DROP TABLE a"⟩ }
  have readIndex : Batch.read .mysql (text "ALTER TABLE a ADD INDEX b (c);\rDROP TABLE a") = .ok index := by
    rw [Batch.read, Batch.steps, cut, Batch.stepsOf_of_gives _ _ _ _ (Batch.not_isComment_of_untouched _ altered) given,
      Batch.stepsOf_of_rejects _ _ _ _ (Batch.not_isComment_of_untouched _ Definition.untouched_dropped)
        Definition.refused_dropped]
    rfl
  obtain ⟨empty, readEmpty, bare⟩ := Attempt.exists_of_any_toOption
    (x := Batch.read .mysql (text "# nothing\r\n")) (p := (·.write .json == "[]")) (by decide +kernel)
  rw [beq_iff_eq] at bare
  have index_holds : sampleFiles.Holds p "index.sql" index := ⟨_, rfl, readIndex⟩
  have empty_holds : sampleFiles.Holds p "empty.sql" empty := ⟨_, rfl, readEmpty⟩
  have stopped : index.stoppedBy ≠ none := Option.some_ne_none _
  have hold : List.Forall₂ (sampleFiles.Holds p) ["index.sql", "empty.sql"] [index, empty] :=
    .cons index_holds (.cons empty_holds .nil)
  obtain ⟨output, code, -, -⟩ := (run_files "" sampleFiles p).2 (p.arguments ["index.sql", "empty.sql"]) _
    (asks_arguments sampleFiles p _ (List.cons_ne_nil _ _))
  obtain ⟨-, -, failed, -⟩ := (run_files "" sampleFiles p).2 (p.arguments ["index.sql", "gone.sql", "empty.sql"]) _
    (asks_arguments sampleFiles p _ (List.cons_ne_nil _ _))
  refine ⟨p, index, empty, ⟨rfl, bare⟩,
    (output _).mpr ⟨[index, empty], hold, ?_⟩, fun zero => ?_,
    (failed _ _).mpr ⟨["index.sql"], "gone.sql", ["empty.sql"], [index], rfl, .cons index_holds .nil,
      .missing rfl, ?_⟩⟩
  · simp [Plan.print, p, bare]
  · exact stopped ((code _ hold).mp zero index (List.mem_cons_self ..))
  · simp [Plan.print]

end SqlSchema.CommandLine
