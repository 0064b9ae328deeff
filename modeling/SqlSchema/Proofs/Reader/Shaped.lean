import SqlSchema.Proofs.Reader.Reading
import SqlSchema.Reader.Statement

/-! The parts of a statement's tree. Every rule for statements fills in the parts that its action asks for and no
others; only the rule for other things that are created can take an action that asks for more. -/
namespace SqlSchema.Tree

/-- Actions that define an index. -/
def indexActions : List String := [Action.createIndex, Action.addIndex, Action.addPrimaryKey]

/-- The statement has the parts that its action asks for, and no other definitions. -/
structure SchemaStatement.Shaped (s : SchemaStatement) : Prop where
  created : s.action = Action.create → s.newName.isSome = true ∧ s.body.isSome = true
  indexed : s.action ∈ indexActions → s.table.isSome = true ∧ s.index.isSome = true ∧ s.indexColumns ≠ []
  bare : s.action ≠ Action.create → s.action ∉ indexActions → s.body = none ∧ s.index = none ∧ s.indexColumns = []

namespace SchemaStatement

variable (s : SchemaStatement)

theorem create_not_mem_indexActions : Action.create ∉ indexActions := by decide

theorem shaped_of_create (action : s.action = Action.create) (name : s.newName.isSome = true)
    (body : s.body.isSome = true) : s.Shaped := by
  refine ⟨fun _ => ⟨name, body⟩, fun member => ?_, fun other => absurd action other⟩
  exact absurd (action ▸ member) create_not_mem_indexActions

/-- The statement is in order and defines no table. -/
def Tableless : Prop := s.Shaped ∧ s.body = none

theorem tableless_of_index (action : s.action ∈ indexActions) (table : s.table.isSome = true)
    (index : s.index.isSome = true) (columns : s.indexColumns ≠ []) (body : s.body = none) : s.Tableless := by
  refine ⟨⟨fun same => ?_, fun _ => ⟨table, index, columns⟩, fun _ other => absurd action other⟩, body⟩
  exact absurd (same ▸ action) create_not_mem_indexActions

theorem tableless_of_bare (action : String) (table newName : Option TableName) (other : action ≠ Action.create)
    (plain : action ∉ indexActions) : Tableless { action, table, newName } :=
  ⟨⟨fun same => absurd same other, fun member => absurd member plain, fun _ _ => ⟨rfl, rfl, rfl⟩⟩, rfl⟩

end SchemaStatement
end Tree

namespace Reader.Rule
open SqlSchema.Tree

theorem yields_parenthesized {α : Type} {P : α → Prop} (r : Rule α) (each : r.Yields P) :
    (parenthesized r).Yields P := by
  refine yields_then _ _ fun _ => yields_bind _ _ each fun inside holds => ?_
  exact yields_then _ _ fun _ => yields_pure _ holds

theorem yields_columnNames (d : Dialect) : (columnNames d).Yields (· ≠ []) := by
  have listed := yields_listOf comma (do
    let name ← identifier d
    let _ ← direction
    return name) (yields_any _)
  exact yields_parenthesized _ fun c all after found => (listed c all after found).1

theorem shaped_createTable (d : Dialect) : (createTable d).Yields SchemaStatement.Shaped := by
  refine yields_then _ _ fun _ => yields_then _ _ fun _ => yields_then _ _ fun _ => yields_then _ _ fun _ => ?_
  refine yields_then _ _ fun newName => yields_then _ _ fun items => yields_then _ _ fun options => ?_
  exact yields_pure _ (SchemaStatement.shaped_of_create _ rfl rfl rfl)

theorem tableless_createIndex (d : Dialect) : (createIndex d).Yields SchemaStatement.Tableless := by
  refine yields_then _ _ fun _ => yields_then _ _ fun unique => yields_then _ _ fun _ => yields_then _ _ fun _ => ?_
  refine yields_then _ _ fun _ => yields_then _ _ fun name => yields_then _ _ fun _ => yields_then _ _ fun table => ?_
  refine yields_then _ _ fun _ => yields_bind _ _ (yields_columnNames d) fun columns filled => ?_
  exact yields_pure _ (SchemaStatement.tableless_of_index _ (by simp [indexActions]) rfl rfl filled rfl)

/-- An index and its columns are there exactly if the action adds an index. -/
def Alteration.Whole (a : Alteration) : Prop :=
  match a.2 with
  | some (_, columns) => a.1 ∈ indexActions ∧ columns ≠ []
  | none => a.1 ≠ Action.create ∧ a.1 ∉ indexActions

theorem whole_alteration (d : Dialect) : (alteration d).Yields Alteration.Whole := by
  apply yields_choice
  simp only [List.forall_mem_cons]
  refine ⟨?_, ?_, ?_, ?_, List.forall_mem_nil _⟩
  · refine yields_then _ _ fun _ => yields_then _ _ fun name => yields_then _ _ fun _ => yields_then _ _ fun _ => ?_
    refine yields_bind _ _ (yields_columnNames d) fun columns filled => ?_
    exact yields_then _ _ fun _ => yields_then _ _ fun _ => yields_pure _ ⟨by simp [indexActions], filled⟩
  · refine yields_then _ _ fun _ => yields_then _ _ fun _ => yields_then _ _ fun name => yields_then _ _ fun _ => ?_
    refine yields_then _ _ fun _ => yields_then _ _ fun _ => ?_
    refine yields_bind _ _ (yields_columnNames d) fun columns filled => ?_
    exact yields_then _ _ fun _ => yields_then _ _ fun _ => yields_pure _ ⟨by simp [indexActions], filled⟩
  · refine yields_then _ _ fun _ => yields_then _ _ fun unique => yields_then _ _ fun name => ?_
    refine yields_then _ _ fun _ => yields_bind _ _ (yields_columnNames d) fun columns filled => ?_
    exact yields_then _ _ fun _ => yields_then _ _ fun _ => yields_pure _ ⟨by simp [indexActions], filled⟩
  · refine yields_then _ _ fun _ => yields_then _ _ fun text => ?_
    apply yields_pure
    unfold Alteration.Whole
    dsimp only
    split <;> decide

theorem tableless_alterTable (d : Dialect) : (alterTable d).Yields SchemaStatement.Tableless := by
  refine yields_then _ _ fun _ => yields_then _ _ fun _ => yields_then _ _ fun _ => yields_then _ _ fun table => ?_
  refine yields_bind _ _ (whole_alteration d) ?_
  rintro ⟨action, _ | ⟨index, columns⟩⟩ whole
  · exact yields_pure _ (SchemaStatement.tableless_of_bare action (some table) none whole.1 whole.2)
  · obtain ⟨added, filled⟩ := whole
    exact yields_pure _ (SchemaStatement.tableless_of_index _ added rfl rfl filled rfl)

theorem tableless_dropTable (d : Dialect) : (dropTable d).Yields SchemaStatement.Tableless := by
  refine yields_then _ _ fun _ => yields_then _ _ fun _ => yields_then _ _ fun _ => yields_then _ _ fun _ => ?_
  refine yields_then _ _ fun tables => yields_then _ _ fun _ => yields_pure _ ?_
  exact SchemaStatement.tableless_of_bare _ _ _ (by decide) (by decide)

theorem tableless_dropOther : dropOther.Yields SchemaStatement.Tableless := by
  refine yields_then _ _ fun _ => yields_then _ _ fun kind => yields_then _ _ fun _ => yields_pure _ ?_
  -- All other actions begin with another letter.
  have first : ∀ action ∈ Action.create :: indexActions, action.toList.head? ≠ some 'd' := by decide
  have letter : (Action.drop ++ " " ++ kind.toLower).toList.head? = some 'd' := by
    rw [String.toList_append, String.toList_append]
    rfl
  refine SchemaStatement.tableless_of_bare _ _ _ (fun same => ?_) fun member => ?_
  · exact first _ (by rw [same]; exact List.mem_cons_self ..) letter
  · exact first _ (List.mem_cons_of_mem _ member) letter

theorem tableless_renameTable (d : Dialect) : (renameTable d).Yields SchemaStatement.Tableless := by
  refine yields_then _ _ fun _ => yields_then _ _ fun _ => yields_then _ _ fun table => yields_then _ _ fun _ => ?_
  exact yields_pure _ (SchemaStatement.tableless_of_bare _ _ _ (by decide) (by decide))

theorem tableless_truncateTable (d : Dialect) : (truncateTable d).Yields SchemaStatement.Tableless := by
  refine yields_then _ _ fun _ => yields_then _ _ fun _ => yields_then _ _ fun table => yields_then _ _ fun _ => ?_
  exact yields_pure _ (SchemaStatement.tableless_of_bare _ _ _ (by decide) (by decide))

/-- What else is created has no parts at all, and is in order unless it passes for an index. -/
theorem bare_createOther : createOther.Yields fun s => s.Tableless ∨ s = { action := Action.createIndex } := by
  refine yields_then _ _ fun _ => yields_then _ _ fun _ => yields_then _ _ fun _ => yields_then _ _ fun kind => ?_
  refine yields_then _ _ fun _ => yields_pure _ ?_
  by_cases index : Action.create ++ " " ++ kind.toLower = Action.createIndex
  · exact .inr (by rw [index])
  · refine .inl (SchemaStatement.tableless_of_bare _ _ _ (fun same => ?_) fun member => ?_)
    · have longer := congrArg String.length same
      rw [String.length_append, String.length_append] at longer
      have space : " ".length = 1 := rfl
      omega
    · have letter : (Action.create ++ " " ++ kind.toLower).toList.head? = some 'c' := by
        rw [String.toList_append, String.toList_append]
        rfl
      have first : ∀ action ∈ [Action.addIndex, Action.addPrimaryKey], action.toList.head? ≠ some 'c' := by decide
      rcases List.mem_cons.mp member with same | added
      · exact index same
      · exact first _ added letter

theorem statement_cases (d : Dialect) (c after : Cursor) (s : SchemaStatement) (found : (statement d).Reads c s after) :
    (createTable d).Reads c s after ∨ s.Tableless ∨
      s = { action := Action.createIndex } ∧ createOther.Reads c s after := by
  obtain ⟨r, member, reads⟩ := ((reads_choice ..).mp found).exists_mem
  simp only [List.mem_cons, List.not_mem_nil, or_false] at member
  rcases member with rfl | rfl | rfl | rfl | rfl | rfl | rfl | rfl
  · exact .inl reads
  · exact .inr (.inl (tableless_createIndex d c s after reads))
  · exact .inr ((bare_createOther c s after reads).imp_right fun same => ⟨same, reads⟩)
  · exact .inr (.inl (tableless_alterTable d c s after reads))
  · exact .inr (.inl (tableless_dropTable d c s after reads))
  · exact .inr (.inl (tableless_dropOther c s after reads))
  · exact .inr (.inl (tableless_renameTable d c s after reads))
  · exact .inr (.inl (tableless_truncateTable d c s after reads))

theorem shaped_or_createOther (d : Dialect) (c after : Cursor) (s : SchemaStatement)
    (found : (statement d).Reads c s after) :
    s.Shaped ∨ s = { action := Action.createIndex } ∧ createOther.Reads c s after := by
  rcases statement_cases d c after s found with table | tableless | other
  · exact .inl (shaped_createTable d c s after table)
  · exact .inl tableless.1
  · exact .inr other

theorem not_shaped_createIndex : ¬ SchemaStatement.Shaped { action := Action.createIndex } := by
  intro shaped
  have table := (shaped.indexed (by decide)).1
  contradiction

end Reader.Rule
end SqlSchema
