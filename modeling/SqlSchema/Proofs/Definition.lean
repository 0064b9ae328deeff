import Mathlib.Tactic.SplitIfs
import SqlSchema.Definition
import SqlSchema.Proofs.Attempt

/-! Reading one statement: definitions and errors carry the statement's text, and what a tree defines depends on its
action. -/
namespace SqlSchema.Definition
open Attempt

theorem statement_of_ofAction? (action text table : String) (index : Index)
    (define : String → String → Index → Definition) (found : ofAction? action = some define) :
    (define text table index).statement = text := by
  unfold ofAction? at found
  split_ifs at found <;> cases Option.some.inj found <;> rfl

/-- What a tree defines: a table by its body, or an index by its parts. -/
inductive Decoded (text : String) (s : Tree.SchemaStatement) : Definition → Prop
  | table {name body table} (filled : s.body = some body) (decoded : (Table.ofTree name body).Gives table) :
    Decoded text s (.createTable text table)
  | index {define table index} (found : ofAction? s.action = some define)
    (decoded : (Index.ofSpec s.action s.index s.indexColumns).Gives index) : Decoded text s (define text table index)

theorem decoded_of_ofTree (text : String) (s : Tree.SchemaStatement) (definition : Definition)
    (given : (ofTree text s).Gives definition) : Decoded text s definition := by
  unfold ofTree at given
  split at given
  · split at given
    · split at given
      next body filled =>
        simp only [gives_bind, gives_pure] at given
        obtain ⟨table, decoded, rfl⟩ := given
        exact .table filled decoded
      next => simp at given
    · simp at given
  · split at given
    next define found =>
      split at given
      · simp only [gives_bind, gives_pure] at given
        obtain ⟨index, decoded, rfl⟩ := given
        exact .index found decoded
      · simp at given
    next => simp at given

theorem statement_of_ofTree (text : String) (s : Tree.SchemaStatement) (definition : Definition)
    (given : (ofTree text s).Gives definition) : definition.statement = text := by
  cases decoded_of_ofTree text s definition given with
  | table => rfl
  | index found => exact statement_of_ofAction? _ _ _ _ _ found

/-- Only statements about the schema define anything. -/
theorem gives_read_iff (d : Dialect) (text : String) (definition : Definition) :
    (read d text).Gives definition ↔ ∃ s, (Tree.read d text).Gives (.schema s) ∧ (ofTree text s).Gives definition := by
  simp only [read, gives_adapt, ofText, gives_bind]
  constructor
  · intro holds
    obtain ⟨tree, parsed, given⟩ := holds
    cases tree with
    | schema s => exact ⟨s, parsed, given⟩
    | other kind plain => simp at given
  · intro holds
    obtain ⟨s, parsed, given⟩ := holds
    exact ⟨.schema s, parsed, given⟩

/-- A statement is rejected by its grammar, for its kind, or for what its tree holds. -/
theorem rejects_read_iff (d : Dialect) (text : String) (cause : Rejection) :
    (read d text).Rejects ⟨cause, text⟩ ↔
      (∃ e, (Tree.read d text).Rejects e ∧ cause = .syntaxError e) ∨
        (∃ kind plain, (Tree.read d text).Gives (.other kind plain) ∧ cause = .otherStatement kind) ∨
        ∃ s, (Tree.read d text).Gives (.schema s) ∧ (ofTree text s).Rejects cause := by
  rw [read, rejects_adapt]
  constructor
  · intro holds
    obtain ⟨cause, rejected, same⟩ := holds
    cases same
    rcases (breaks_bind ..).mp rejected with syntactic | ⟨tree, parsed, refused⟩
    · obtain ⟨e, broken, rfl⟩ := (rejects_adapt ..).mp syntactic
      exact .inl ⟨e, broken, rfl⟩
    · rw [gives_adapt] at parsed
      cases tree with
      | schema s => exact .inr (.inr ⟨s, parsed, refused⟩)
      | other kind plain =>
        cases (breaks_throw ..).mp refused
        exact .inr (.inl ⟨kind, plain, parsed, rfl⟩)
  · intro holds
    refine ⟨cause, (breaks_bind ..).mpr ?_, rfl⟩
    rcases holds with ⟨e, broken, rfl⟩ | ⟨kind, plain, parsed, rfl⟩ | ⟨s, parsed, refused⟩
    · exact .inl ((rejects_adapt ..).mpr ⟨e, broken, rfl⟩)
    · exact .inr ⟨_, (gives_adapt ..).mpr parsed, (breaks_throw ..).mpr rfl⟩
    · exact .inr ⟨_, (gives_adapt ..).mpr parsed, refused⟩

theorem refused_of_action {d : Dialect} {text : String} {s : Tree.SchemaStatement}
    (parsed : (Tree.read d text).Gives (.schema s)) (other : s.action ≠ Tree.Action.create)
    (unknown : ofAction? s.action = none) : (read d text).Rejects ⟨.unsupportedAction s.action, text⟩ :=
  (rejects_read_iff ..).mpr (.inr (.inr ⟨s, parsed, by simp [ofTree, other, unknown]⟩))

theorem statement_of_read (d : Dialect) (text : String) (definition : Definition)
    (given : (read d text).Gives definition) : definition.statement = text := by
  obtain ⟨s, _, given⟩ := (gives_read_iff ..).mp given
  exact statement_of_ofTree text s definition given

theorem statement_of_rejected (d : Dialect) (text : String) (e : StatementError) (rejected : (read d text).Rejects e) :
    e.statement = text := by
  obtain ⟨cause, _, rfl⟩ := (rejects_adapt _ _ _).mp rejected
  rfl

end SqlSchema.Definition
