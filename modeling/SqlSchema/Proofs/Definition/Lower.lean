import SqlSchema.Proofs.Definition
import SqlSchema.Proofs.Definition.Untouched
import SqlSchema.Proofs.Reader.Matched
import SqlSchema.Proofs.Schema.Lower
import SqlSchema.Proofs.Statement.Lower
import SqlSchema.Proofs.Tree

/-! The case of letters. Outside quotes it means nothing: a statement and the same statement in small letters define the
same, but for the case of names and raw texts, or both define nothing. -/
namespace SqlSchema
open Attempt Text Reader

variable {d : Dialect}

theorem similar_of_lower {cs ds : List Char} (same : lower cs = lower ds) (bare : ∀ c ∈ cs, c ∉ quotes) :
    Similar (.letters d) cs ds := by
  induction size : cs.length using Nat.strong_induction_on generalizing cs ds with
  | _ n ih =>
    cases cs with
    | nil =>
      rw [lower_eq_nil.mp same.symm]
      exact .nil
    | cons c cs =>
      obtain ⟨e, ds, rfl, letter, later⟩ := eq_cons_of_lower same.symm
      obtain ⟨here, behind⟩ := List.forall_mem_cons.mp bare
      have seen : (Comparison.letters d).see c = (Comparison.letters d).see e := letter.symm
      have gaps : Cursor.isGap c = Cursor.isGap e := Comparison.same caseless_isGap seen
      have shorter := (List.dropWhile_suffix (l := cs) Cursor.isGap).length_le
      rw [List.length_cons] at size
      cases gap : Cursor.isGap c with
      | false =>
        have usual : (Comparison.letters d).Usual c := ⟨here, fun other => absurd rfl other⟩
        exact .cons gap usual seen (ih cs.length (by omega) later.symm behind rfl)
      | true =>
        refine .gap gap (gaps ▸ gap) (ih _ (by omega) ?_ (fun e member => ?_) rfl)
        · rw [← dropWhile_lower caseless_isGap, ← dropWhile_lower caseless_isGap, later]
          rfl
        · exact behind e ((List.dropWhile_suffix Cursor.isGap).subset member)

namespace Tree

theorem dropSemicolon_lower (cs : List Char) : dropSemicolon (lower cs) = lower (dropSemicolon cs) := by
  have last : (lower cs).getLast? = some ';' ↔ cs.getLast? = some ';' := by
    rw [getLast?_lower]
    cases cs.getLast? with
    | none => simp
    | some c => simp [toLower_eq_iff (show ';'.isAlpha = false by decide)]
  have front : (lower cs).dropLast = lower cs.dropLast := List.map_dropLast.symm
  unfold dropSemicolon
  simp only [last, front, trimRight_lower]
  split <;> rfl

theorem openingWord_lower (cs : List Char) : openingWord (lower cs) = openingWord cs := by
  rw [openingWord, openingWord, firstWord_lower, upper_lower]

/-- Nothing is quoted. -/
def Bare (cs : List Char) : Prop := ∀ c ∈ cs, c ∉ quotes

theorem bare_strip {cs plain : List Char} (stripped : Statement.strip d cs = .ok plain) (bare : Bare cs) :
    Bare plain := by
  refine Statement.forall_strip (by decide) (fun c ends => ?_) stripped bare
  simp only [isLineEnd, Bool.or_eq_true, beq_iff_eq] at ends
  rcases ends with rfl | rfl <;> decide

/-- Texts that differ in case, once their comments are gone, have trees that differ in it. -/
theorem gives_of_lower {text text' : String} {s : SchemaStatement} (bare : Bare text.toList)
    (same : (Statement.strip d text.toList).map lower = (Statement.strip d text'.toList).map lower)
    (given : (read d text).Gives (.schema s)) :
    ∃ s', (read d text').Gives (.schema s') ∧
      (Comparison.letters d).statement s = (Comparison.letters d).statement s' := by
  obtain ⟨plain, stripped, known, reads⟩ := (gives_schema_iff ..).mp given
  rw [stripped, eq_comm, Except.map, map_eq_ok] at same
  obtain ⟨plain', stripped', small⟩ := same
  have dropped : lower (dropSemicolon plain') = lower (dropSemicolon plain) := by
    rw [← dropSemicolon_lower, small, dropSemicolon_lower]
  have expanded : lower (expandTabs (dropSemicolon plain)) = lower (expandTabs (dropSemicolon plain')) := by
    rw [← expandTabs_lower, ← dropped, expandTabs_lower]
  have word : openingWord (dropSemicolon plain') = openingWord (dropSemicolon plain) := by
    rw [← openingWord_lower, dropped, openingWord_lower]
  have open_ : Bare (expandTabs (dropSemicolon plain)) := by
    refine (filled_expandFrom 0 _).forall_mem (by decide) fun c member => ?_
    exact bare_strip stripped bare c ((prefix_dropSemicolon plain).subset member)
  rcases (Rule.matches_statement (k := .letters d)).readAll (similar_of_lower expanded open_) with
    ⟨s₁, s', first, second, alike⟩ | ⟨⟨failure, failed⟩, _⟩
  · cases first.symm.trans reads
    exact ⟨s', (gives_schema_iff ..).mpr ⟨plain', stripped', word ▸ known, second⟩, alike⟩
  · cases failed.symm.trans reads

end Tree

namespace Definition

theorem gives_ofSpec {action : String} {spec spec' : Option Tree.IndexSpec} {columns columns' : List String}
    {index : Index} (specs : spec.map (Comparison.letters d).spec = spec'.map (Comparison.letters d).spec)
    (names : columns.map String.toLower = columns'.map String.toLower)
    (given : (Index.ofSpec action spec columns).Gives index) :
    ∃ index', (Index.ofSpec action spec' columns').Gives index' ∧ index.lowered = index'.lowered := by
  have parts (columns : List String) :
      (columns.map ({ column := · } : String → IndexColumn)).map IndexColumn.lowered =
        (columns.map String.toLower).map ({ column := · }) := by
    rw [List.map_map, List.map_map]
    rfl
  cases spec with
  | none => simp [Index.ofSpec] at given
  | some spec =>
    cases spec' with
    | none => contradiction
    | some spec' =>
      simp only [Option.map_some, Option.some.injEq, Comparison.spec, Tree.IndexSpec.mk.injEq,
        Comparison.text_letters] at specs
      simp only [Index.ofSpec, gives_pure] at given ⊢
      subst given
      exact ⟨_, rfl, by simp only [Index.lowered, specs, parts, names]⟩

theorem lowered_ofAction? {action : String} {define : String → String → Index → Definition}
    (found : ofAction? action = some define) {text text' table table' : String} {index index' : Index}
    (texts : text.toLower = text'.toLower) (tables : table.toLower = table'.toLower)
    (indexes : index.lowered = index'.lowered) :
    (define text table index).lowered = (define text' table' index').lowered := by
  unfold ofAction? at found
  split_ifs at found <;> cases Option.some.inj found <;> simp only [lowered, texts, tables, indexes]

theorem gives_ofTree_lower {text text' : String} {s s' : Tree.SchemaStatement} {definition : Definition}
    (texts : text.toLower = text'.toLower)
    (same : (Comparison.letters d).statement s = (Comparison.letters d).statement s')
    (given : (ofTree text s).Gives definition) :
    ∃ definition', (ofTree text' s').Gives definition' ∧ definition.lowered = definition'.lowered := by
  obtain ⟨action, table, newName, body, index, columns⟩ := s
  obtain ⟨action', table', newName', body', index', columns'⟩ := s'
  simp only [Comparison.statement, Tree.SchemaStatement.mk.injEq, Comparison.text_letters] at same
  obtain ⟨rfl, tables, newNames, bodies, indexes, names⟩ := same
  have named {t t' : Tree.TableName}
      (same : some ((Comparison.letters d).table t) = some ((Comparison.letters d).table t')) :
      t.name.toLower = t'.name.toLower := by
    simp only [Comparison.table, Option.some.injEq, Tree.TableName.mk.injEq, Comparison.text_letters] at same
    exact same.1
  unfold ofTree at given ⊢
  dsimp only at given ⊢
  split at given
  next created =>
    rw [if_pos created]
    cases newName with
    | none => simp at given
    | some name =>
      cases body with
      | none => simp at given
      | some body =>
        obtain ⟨name', rfl, _⟩ := Option.map_eq_some_iff.mp newNames.symm
        obtain ⟨body', rfl, _⟩ := Option.map_eq_some_iff.mp bodies.symm
        simp only [gives_bind, gives_pure] at given ⊢
        obtain ⟨decoded, first, rfl⟩ := given
        obtain ⟨decoded', second, alike⟩ := gives_table (named newNames) (Option.some.inj bodies) first
        exact ⟨_, ⟨decoded', second, rfl⟩, by rw [lowered, lowered, texts, alike]⟩
  next other =>
    rw [if_neg other]
    split at given
    next define found =>
      cases table with
      | none => simp at given
      | some onTable =>
        obtain ⟨onTable', rfl, _⟩ := Option.map_eq_some_iff.mp tables.symm
        simp only [gives_bind, gives_pure] at given ⊢
        obtain ⟨decoded, first, rfl⟩ := given
        obtain ⟨decoded', second, alike⟩ := gives_ofSpec indexes names first
        exact ⟨_, ⟨decoded', second, rfl⟩, lowered_ofAction? found texts (named tables) alike⟩
    next => simp at given

/-- What one of two texts defines, the other defines but for the case of letters. -/
theorem gives_read_lower {text text' : String} {definition : Definition} (bare : Tree.Bare text.toList)
    (texts : text.toLower = text'.toLower)
    (same : (Statement.strip d text.toList).map lower = (Statement.strip d text'.toList).map lower)
    (given : (read d text).Gives definition) :
    ∃ definition', (read d text').Gives definition' ∧ definition.lowered = definition'.lowered := by
  obtain ⟨s, parsed, decoded⟩ := (gives_read_iff ..).mp given
  obtain ⟨s', parsed', alike⟩ := Tree.gives_of_lower bare same parsed
  obtain ⟨definition', decoded', small⟩ := gives_ofTree_lower texts alike decoded
  exact ⟨definition', (gives_read_iff ..).mpr ⟨s', parsed', decoded'⟩, small⟩

/-- A text and the same text in small letters define the same but for the case of names and raw texts, or nothing. -/
def AlikeInLower (d : Dialect) (text : String) : Prop :=
  (∃ definition small, (read d text).Gives definition ∧ (read d text.toLower).Gives small ∧
      definition.lowered = small.lowered) ∨
    (∃ b, (read d text).Breaks b) ∧ ∃ b, (read d text.toLower).Breaks b

/-- The case of letters means nothing where nothing is quoted and no word `GO` in capitals ends a statement. -/
theorem alikeInLower_of_bare (d : Dialect) (text : String) (bare : ∀ c ∈ text.toList, c ∉ quotes ∧ c ≠ '$')
    (usual : ∀ t ∈ Token.scan text.toList, Statement.separates t = false) : AlikeInLower d text := by
  have texts : text.toLower = text.toLower.toLower := by
    rw [toLower_inj, toList_toLower, lower_lower]
  have stripped : (Statement.strip d text.toList).map lower = (Statement.strip d text.toLower.toList).map lower := by
    rw [toList_toLower, Statement.strip_lower d (fun member => (bare _ member).2 rfl) usual]
    cases Statement.strip d text.toList with
    | error i => rfl
    | ok plain => simp [Except.map]
  have unquoted : Tree.Bare text.toList := fun c member => (bare c member).1
  have small : Tree.Bare text.toLower.toList := by
    intro c member
    rw [toList_toLower] at member
    obtain ⟨e, inside, rfl⟩ := List.mem_map.mp member
    have quote : Caseless (decide <| · ∈ quotes) := caseless_of_ascii (by decide)
    have alike := quote.lowered e
    rw [decide_eq_decide] at alike
    exact mt alike.mp (unquoted e inside)
  rcases gives_or_breaks (read d text) with ⟨definition, given⟩ | broken
  · obtain ⟨other, given', alike⟩ := gives_read_lower unquoted texts stripped given
    exact .inl ⟨definition, other, given, given', alike⟩
  rcases gives_or_breaks (read d text.toLower) with ⟨definition, given⟩ | broken'
  · obtain ⟨other, given', alike⟩ := gives_read_lower small texts.symm stripped.symm given
    exact .inl ⟨other, definition, given', given, alike.symm⟩
  · exact .inr ⟨broken, broken'⟩

/-- Keywords, names and an exponent in either case, and a word `Go`. -/
theorem alikeInLower_of_bare_mixed :
    (read .mysql "Create TABLE T (Id Dec(3) DEFAULT 1E2, B Go Unique)").Gives
        (.createTable "Create TABLE T (Id Dec(3) DEFAULT 1E2, B Go Unique)"
          { name := "T"
            columns := [
              { name := "Id", typeName := "dec", default := some (.float "1E2" ⟨false, 4636737291354636288⟩)
                length := some (.integer "3" 3) },
              { name := "B", typeName := "go", keyOption := .unique }] }) ∧
      AlikeInLower .mysql "Create TABLE T (Id Dec(3) DEFAULT 1E2, B Go Unique)" := by
  have untouched : Untouched "Create TABLE T (Id Dec(3) DEFAULT 1E2, B Go Unique)" := by decide +kernel
  constructor
  · rw [read_of_untouched untouched]
    decide +kernel
  · exact alikeInLower_of_bare .mysql _ (by decide) fun t member =>
      (Bool.or_eq_false_iff.mp (untouched.1.unending t member)).2

/-- A word `GO` in capitals takes the space behind it away, and joins the words around it. -/
theorem not_alikeInLower_separated :
    (read .mysql "CREATE TABLE t (a GO UNSIGNED)").Gives
        (.createTable "CREATE TABLE t (a GO UNSIGNED)"
          { name := "t", columns := [{ name := "a", typeName := "gounsigned" }] }) ∧
      (read .mysql "create table t (a go unsigned)").Gives
        (.createTable "create table t (a go unsigned)"
          { name := "t", columns := [{ name := "a", typeName := "go", unsigned := true }] }) ∧
      ¬ AlikeInLower .mysql "CREATE TABLE t (a GO UNSIGNED)" := by
  have given : (read .mysql "CREATE TABLE t (a GO UNSIGNED)").Gives
      (.createTable "CREATE TABLE t (a GO UNSIGNED)"
        { name := "t", columns := [{ name := "a", typeName := "gounsigned" }] }) := by decide +kernel
  have small : (read .mysql "create table t (a go unsigned)").Gives
      (.createTable "create table t (a go unsigned)"
        { name := "t", columns := [{ name := "a", typeName := "go", unsigned := true }] }) := by
    rw [read_of_untouched (by decide +kernel)]
    decide +kernel
  have letters : "CREATE TABLE t (a GO UNSIGNED)".toLower = "create table t (a go unsigned)" := by decide +kernel
  refine ⟨given, small, fun alike => ?_⟩
  rw [AlikeInLower, letters] at alike
  rcases alike with ⟨definition, other, first, second, same⟩ | ⟨⟨b, broken⟩, _⟩
  · cases given.unique first
    cases small.unique second
    injection same with _ tables
    have types := congrArg (fun t => t.columns.map (·.typeName)) tables
    exact absurd types (by decide)
  · exact given.not_breaks b broken

end Definition
end SqlSchema
