import SqlSchema.Proofs.Definition.Interruption
import SqlSchema.Proofs.Definition.Untouched
import SqlSchema.Proofs.Reader.Drawn
import SqlSchema.Proofs.Schema.Table
import SqlSchema.Proofs.Statement.Kept
import SqlSchema.Proofs.Text.Enclosed
import SqlSchema.Proofs.Written.Scientific

/-! Malformed numbers. What the grammar takes for a number is decoded unless it has digits of another script or lies
beyond the range of its kind. -/
namespace SqlSchema
open Attempt Reader Text Written

/-- The text stands for a number beyond the range of its kind: one of more than 64 bits, or one that has infinity for its
nearest binary number. -/
inductive NumberKind.Overflows : NumberKind → String → Prop
  | integer (n : Figures) (great : n.value < -2 ^ 63 ∨ 2 ^ 63 ≤ n.value) : Overflows .integer (String.ofList n.chars)
  | float (n : Scientific) (great : Binary64.overflow ≤ |n.value|) : Overflows .float (String.ofList n.chars)

theorem fitsWord_eq_false_iff (n : Int) : fitsWord n = false ↔ n < -2 ^ 63 ∨ 2 ^ 63 ≤ n := by
  have bound : (twoPow 63 : Int) = 2 ^ 63 := rfl
  rw [fitsWord, bound, Bool.and_eq_false_iff, decide_eq_false_iff_not, decide_eq_false_iff_not, not_le, not_lt]

/-- With ASCII digits only, a number is malformed by its size alone. -/
theorem Tree.Literal.Malformed.overflows {l : Tree.Literal} {kind : NumberKind} (malformed : l.Malformed kind)
    (shape : kind.Shape l.text.toList) (ascii : AsciiDigits l.text.toList) : kind.Overflows l.text := by
  cases kind with
  | integer =>
    obtain ⟨n, same⟩ := shape.exists_figures ascii
    have great := malformed.2.2 n.value (same ▸ n.integerOf?_chars)
    rw [← String.ofList_toList (s := l.text), ← same]
    exact .integer n ((fitsWord_eq_false_iff _).mp great)
  | float =>
    obtain ⟨n, same⟩ := shape.exists_scientific ascii
    obtain ⟨x, read, same_value⟩ := n.exists_read?_chars
    have none := malformed.2
    rw [← same, read, Option.bind_some, Decimal.toBinary64?_eq_none_iff, same_value] at none
    rw [← String.ofList_toList (s := l.text), ← same]
    exact .float n none

/-- All digits that the grammar sees come from the text. -/
theorem Tree.left_of_strip {d : Dialect} {text plain : List Char} (stripped : Statement.strip d text = .ok plain) :
    Rule.Left (fun c => isDigit c = true → c ∈ text) (.start (expandTabs (dropSemicolon plain))) := by
  have space : isDigit ' ' = true → ' ' ∈ text := fun digit => absurd digit (by decide)
  have ends (c : Char) (ended : isLineEnd c = true) (digit : isDigit c = true) : c ∈ text := by
    simp only [isLineEnd, Bool.or_eq_true, beq_iff_eq] at ended
    rcases ended with rfl | rfl <;> exact absurd digit (by decide)
  have kept := Statement.forall_strip (P := fun c => isDigit c = true → c ∈ text) space ends stripped
    fun c member _ => member
  exact (filled_expandFrom 0 _).forall_mem space fun c member => kept c ((prefix_dropSemicolon plain).subset member)

namespace Definition

/-- A rejected number is a literal of its kind, and its digits are the text's. -/
theorem literal_of_malformedNumber {d : Dialect} {text statement raw : String} {kind : NumberKind}
    (rejected : (read d text).Rejects ⟨.malformedNumber kind raw, statement⟩) :
    ∃ l : Tree.Literal, l.Malformed kind ∧ l.text = raw ∧ kind.Shape raw.toList ∧
      ∀ c ∈ raw.toList, isDigit c = true → c ∈ text.toList := by
  have own : statement = text := statement_of_rejected d text _ rejected
  subst own
  rcases (rejects_read_iff ..).mp rejected with ⟨_, _, same⟩ | ⟨_, _, _, same⟩ | ⟨s, parsed, refused⟩
  · contradiction
  · contradiction
  obtain ⟨plain, stripped, _, found⟩ := (Tree.gives_schema_iff ..).mp parsed
  obtain ⟨after, reads, _⟩ := (Rule.readAll_eq_ok ..).mp found
  by_cases shaped : s.Shaped
  · rcases (breaks_ofTree_iff _ s shaped _).mp refused with ⟨body, _, filled, walked⟩ | ⟨_, _, same⟩
    · obtain ⟨before, x, behind, split, _, faulty⟩ := (breaks_mapM ..).mp walked
      obtain ⟨l, number, rfl, malformed, same⟩ := (rejects_detail_iff x _).mp faulty
      cases same
      have member : .literal (some l) ∈ body.details := by simp [split]
      have drawn := (Rule.draws_statement d _ s after (Tree.left_of_strip stripped) reads body filled).details l member
      have literal : l.kind = kind.literal := by cases kind <;> exact malformed.1
      obtain ⟨shape, digits⟩ := drawn kind literal
      exact ⟨l, malformed, rfl, shape, digits⟩
    · cases same
  · obtain ⟨_, rfl⟩ := (Tree.misshapen_iff d _ s).mp ⟨parsed, shaped⟩
    cases (breaks_misshapen_iff _ _).mp refused

/-- A number is malformed for a digit of another script or because it lies beyond the range of its kind. In a text whose
digits are all ASCII, only its size can be at fault. -/
theorem overflows_of_malformedNumber (d : Dialect) (text statement raw : String) (kind : NumberKind)
    (rejected : (read d text).Rejects ⟨.malformedNumber kind raw, statement⟩) :
    ((∃ c ∈ raw.toList, isDigit c = true ∧ c.isDigit = false) ∨ kind.Overflows raw) ∧
      (AsciiDigits text.toList → kind.Overflows raw) := by
  obtain ⟨l, malformed, rfl, shape, digits⟩ := literal_of_malformedNumber rejected
  constructor
  · by_cases ascii : AsciiDigits l.text.toList
    · exact .inr (malformed.overflows shape ascii)
    · simpa [AsciiDigits] using Or.inl ascii
  · exact fun ascii => malformed.overflows shape fun c member digit => ascii c (digits c member digit) digit

/-- A column with a default value. -/
def defaulted (typeName : String) (value : Tree.Literal) : Tree.SchemaStatement where
  action := Tree.Action.create
  newName := some { name := "t" }
  body := some { columns := [{ name := "a", type := { name := typeName, default := some value } }], indexes := [] }

/-- The least integer that is too great, and a power of ten. -/
theorem overflows_of_malformedNumber_large :
    (read .mysql "CREATE TABLE t (a INT DEFAULT 9223372036854775808)").Rejects
        ⟨.malformedNumber .integer "9223372036854775808", "CREATE TABLE t (a INT DEFAULT 9223372036854775808)"⟩ ∧
      NumberKind.integer.Overflows "9223372036854775808" ∧
      (read .postgres "CREATE TABLE t (a REAL DEFAULT -1e999)").Rejects
        ⟨.malformedNumber .float "-1e999", "CREATE TABLE t (a REAL DEFAULT -1e999)"⟩ ∧
      NumberKind.float.Overflows "-1e999" := by
  have integer : (Tree.read .mysql "CREATE TABLE t (a INT DEFAULT 9223372036854775808)").Gives
      (.schema (defaulted "int" ⟨.integer, "9223372036854775808"⟩)) := by
    rw [Tree.read_of_untouched (by decide +kernel)]
    decide +kernel
  have float : (Tree.read .postgres "CREATE TABLE t (a REAL DEFAULT -1e999)").Gives
      (.schema (defaulted "real" ⟨.float, "-1e999"⟩)) := by
    rw [Tree.read_of_untouched (by decide +kernel)]
    decide +kernel
  have first : (read .mysql "CREATE TABLE t (a INT DEFAULT 9223372036854775808)").Rejects
      ⟨.malformedNumber .integer "9223372036854775808", "CREATE TABLE t (a INT DEFAULT 9223372036854775808)"⟩ :=
    (rejects_read_iff ..).mpr (.inr (.inr ⟨_, integer, rfl⟩))
  have second : (read .postgres "CREATE TABLE t (a REAL DEFAULT -1e999)").Rejects
      ⟨.malformedNumber .float "-1e999", "CREATE TABLE t (a REAL DEFAULT -1e999)"⟩ :=
    (rejects_read_iff ..).mpr (.inr (.inr ⟨_, float, rfl⟩))
  exact ⟨first, (overflows_of_malformedNumber .mysql _ _ _ _ first).2 (by decide),
    second, (overflows_of_malformedNumber .postgres _ _ _ _ second).2 (by decide)⟩

end Definition
end SqlSchema
