import SqlSchema.Proofs.Definition
import SqlSchema.Proofs.Reader.Matched
import SqlSchema.Proofs.Statement.Kept
import SqlSchema.Proofs.Statement.Nesting
import SqlSchema.Proofs.Tree

/-! What the dialects have in common. A text without quotes and without the characters that mean something in one
dialect only is read alike in both. -/
namespace SqlSchema
open Attempt Text Reader

/-- Quotes, and characters that mean something in one dialect only. -/
def Dialect.marks : List Char := ['\x27', '\x22', '\x60', '?', '$', '#', ':']

/-- The text has no character that the dialects treat differently. -/
def Common (cs : List Char) : Prop := ∀ c ∈ cs, c ∉ Dialect.marks

instance (cs : List Char) : Decidable (Common cs) := inferInstanceAs (Decidable (∀ _ ∈ _, _))

/-- Rejections of one class. Syntax errors may tell different places and expectations, all others say the same. -/
inductive Rejection.Alike : Rejection → Rejection → Prop
  | syntaxError (e e' : SyntaxError) : Alike (.syntaxError e) (.syntaxError e')
  | same (r : Rejection) : Alike r r

theorem usual_of_common {d e : Dialect} {c : Char} (common : c ∉ Dialect.marks) : (Comparison.exact d e).Usual c := by
  have quote : ∀ c ∈ quotes, c ∈ Dialect.marks := by decide
  have part : ∀ c ∈ Comparison.parting, c ∈ Dialect.marks := by decide
  exact ⟨mt (quote c) common, fun _ => mt (part c) common⟩

namespace Statement

theorem not_isHashQuote_of_common (c : Char) (common : c ∉ Dialect.marks) : isHashQuote c = false := by
  simp only [Dialect.marks, List.mem_cons, List.not_mem_nil, or_false, not_or] at common
  simp [isHashQuote, common]

theorem common_of_isLineEnd (c : Char) (ends : isLineEnd c = true) : c ∉ Dialect.marks := by
  simp only [isLineEnd, Bool.or_eq_true, beq_iff_eq] at ends
  rcases ends with rfl | rfl <;> decide

theorem strip_common (cs : List Char) (common : Common cs) : strip .mysql cs = strip .postgres cs := by
  unfold strip
  cases found : plainText cs with
  | error i => rfl
  | ok text =>
    have kept : Common text := forall_plainText (by decide) common_of_isLineEnd found common
    simp only [Except.map, if_true, reduceCtorEq, if_false]
    rw [cutHashes_eq_self text (fun c member => not_isHashQuote_of_common c (kept c member))
      fun member => kept '#' member (by decide)]

end Statement

namespace Tree

theorem common_expandTabs (cs : List Char) (common : Common cs) : Common (expandTabs cs) :=
  (filled_expandFrom 0 cs).forall_mem (by decide) common

theorem ofPlain_nil (d : Dialect) : ofPlain d [] = throw ⟨0, .emptyStatement⟩ := rfl

theorem rejects_ofPlain {d : Dialect} {cs : List Char} (known : openingWord cs ∈ schemaWords)
    (failed : ∃ failure, (Rule.statement d).readAll (expandTabs cs) = .error failure) :
    ∃ e, (ofPlain d cs).Rejects e := by
  obtain ⟨failure, failed⟩ := failed
  unfold ofPlain
  cases cs with
  | nil => exact absurd known (by decide)
  | cons c rest => exact ⟨expectedAt failure, by simp [known, failed, Except.mapError]⟩

/-- Statements without comments are read alike, as far as a definition depends on them. -/
theorem ofPlain_common (cs : List Char) (common : Common cs) :
    ofPlain .mysql cs = ofPlain .postgres cs ∨
      (∃ s s', (ofPlain .mysql cs).Gives (.schema s) ∧ (ofPlain .postgres cs).Gives (.schema s') ∧
        (Comparison.exact .mysql .postgres).statement s = (Comparison.exact .mysql .postgres).statement s') ∨
      (∃ e, (ofPlain .mysql cs).Rejects e) ∧ ∃ e, (ofPlain .postgres cs).Rejects e := by
  have similar := similar_self (d := .mysql) (e := .postgres) fun c member =>
    usual_of_common (common_expandTabs cs common c member)
  have agreed := Rule.readAll_statement similar
  by_cases filled : cs = []
  · exact .inl (by rw [filled, ofPlain_nil, ofPlain_nil])
  by_cases known : openingWord cs ∈ schemaWords
  · right
    rcases agreed with ⟨s, s', first, second, same⟩ | ⟨first, second⟩
    · exact .inl ⟨s, s', (gives_ofPlain_iff ..).mpr ⟨known, first⟩, (gives_ofPlain_iff ..).mpr ⟨known, second⟩, same⟩
    · exact .inr ⟨rejects_ofPlain known first, rejects_ofPlain known second⟩
  · left
    have other : ¬ schemaWords.contains (openingWord cs) = true := by rwa [List.contains_iff_mem]
    simp only [ofPlain, if_neg other]

theorem read_of_strip_error {d : Dialect} {text : String} {i : Interruption}
    (stopped : Statement.strip d text.toList = .error i) : read d text = interrupt i := by
  rw [read, stopped]
  rfl

/-- What `ofPlain_common` says of statements without comments holds of all of them. -/
theorem read_alike (text : String) (common : Common text.toList) :
    read .mysql text = read .postgres text ∨
      (∃ s s', (read .mysql text).Gives (.schema s) ∧ (read .postgres text).Gives (.schema s') ∧
        (Comparison.exact .mysql .postgres).statement s = (Comparison.exact .mysql .postgres).statement s') ∨
      (∃ e, (read .mysql text).Rejects e) ∧ ∃ e, (read .postgres text).Rejects e := by
  have stripped := Statement.strip_common text.toList common
  cases found : Statement.strip .postgres text.toList with
  | error i =>
    rw [found] at stripped
    exact .inl (by rw [read_of_strip_error stripped, read_of_strip_error found])
  | ok plain =>
    rw [found] at stripped
    have kept := Statement.forall_strip (by decide) Statement.common_of_isLineEnd found common
    rw [read_of_strip stripped, read_of_strip found]
    exact ofPlain_common _ fun c member => kept c ((prefix_dropSemicolon plain).subset member)

end Tree

namespace Definition

theorem ofTree_of_seen {d e : Dialect} {s s' : Tree.SchemaStatement} (text : String)
    (same : (Comparison.exact d e).statement s = (Comparison.exact d e).statement s') :
    ofTree text s = ofTree text s' := by
  have seen (s : Tree.SchemaStatement) : ofTree text ((Comparison.exact d e).statement s) = ofTree text s := by
    rw [Comparison.statement_exact]
    unfold ofTree
    cases s.newName <;> cases s.body <;> rfl
  rw [← seen s, same, seen s']

theorem ofText_of_schema {d : Dialect} {text : String} {s : Tree.SchemaStatement}
    (given : (Tree.read d text).Gives (.schema s)) : ofText d text = ofTree text s := by
  have whole : Tree.read d text = pure (.schema s) := given
  rw [ofText, whole]
  rfl

/-- Without the text in the errors, the dialects differ in what syntax errors tell, and in nothing else. -/
theorem ofText_common (text : String) (common : Common text.toList) :
    ofText .mysql text = ofText .postgres text ∨
      (∃ e, (ofText .mysql text).Rejects (.syntaxError e)) ∧ ∃ e, (ofText .postgres text).Rejects (.syntaxError e) := by
  have rejected {d : Dialect} {e : SyntaxError} (first : (Tree.read d text).Rejects e) :
      (ofText d text).Rejects (.syntaxError e) :=
    (breaks_bind ..).mpr (.inl ((rejects_adapt ..).mpr ⟨e, first, rfl⟩))
  rcases Tree.read_alike text common with same | ⟨s, s', first, second, same⟩ | ⟨⟨e, first⟩, e', second⟩
  · left
    unfold ofText
    rw [same]
  · left
    rw [ofText_of_schema first, ofText_of_schema second, ofTree_of_seen text same]
  · exact .inr ⟨⟨e, rejected first⟩, e', rejected second⟩

/-- Both dialects give one definition, or reject with errors of one class, or are interrupted in one way. -/
def AgreedOn (text : String) : Prop :=
  (∃ definition, (read .mysql text).Gives definition ∧ (read .postgres text).Gives definition) ∨
    (∃ e e', (read .mysql text).Rejects e ∧ (read .postgres text).Rejects e' ∧ e.rejection.Alike e'.rejection ∧
      e.statement = e'.statement) ∨
    ∃ i, (read .mysql text).Stops i ∧ (read .postgres text).Stops i

/-- The dialects agree on what they have in common. -/
theorem agreedOn_common (text : String) (common : Common text.toList) : AgreedOn text := by
  rcases ofText_common text common with same | ⟨⟨e, first⟩, e', second⟩
  · have whole : read .mysql text = read .postgres text := by rw [read, same, read]
    rw [AgreedOn, whole]
    rcases gives_or_breaks (read .postgres text) with ⟨definition, given⟩ | ⟨b, broken⟩
    · exact .inl ⟨definition, given, given⟩
    · cases b with
      | rejected e => exact .inr (.inl ⟨e, e, broken, broken, .same e.rejection, rfl⟩)
      | interrupted i => exact .inr (.inr ⟨i, broken, broken⟩)
  · refine .inr (.inl ⟨⟨.syntaxError e, text⟩, ⟨.syntaxError e', text⟩, ?_, ?_, .syntaxError e e', rfl⟩)
    · exact (rejects_adapt ..).mpr ⟨_, first, rfl⟩
    · exact (rejects_adapt ..).mpr ⟨_, second, rfl⟩

theorem agreedOn_common_sized :
    Common "CREATE TABLE t (a DEC(3,1) DEFAULT 5)".toList ∧ AgreedOn "CREATE TABLE t (a DEC(3,1) DEFAULT 5)" := by
  have common : Common "CREATE TABLE t (a DEC(3,1) DEFAULT 5)".toList := by decide
  exact ⟨common, agreedOn_common _ common⟩

end Definition
end SqlSchema
