import SqlSchema.Proofs.Reader.Shaped

/-! Key options of columns. A column that is read has one of the options with names, never a bare number. -/
namespace SqlSchema.Reader
open SqlSchema.Tree

/-- An option with a name. -/
def Known (k : Tree.KeyOption) : Prop := ∀ code, k ≠ .other code

def Attribute.Known : Attribute → Prop
  | .key option => Reader.Known option
  | _ => True

theorem known_apply (type : ColumnType) (a : Attribute) (before : Known type.keyOption) (known : a.Known) :
    Known (a.apply type).keyOption := by
  cases a with
  | key option => exact known
  | _ => exact before

theorem known_foldl (attributes : List Attribute) (type : ColumnType) (before : Known type.keyOption)
    (known : ∀ a ∈ attributes, a.Known) : Known (attributes.foldl Attribute.apply type).keyOption := by
  induction attributes generalizing type with
  | nil => exact before
  | cons a rest ih =>
    rw [List.forall_mem_cons] at known
    exact ih (a.apply type) (known_apply type a before known.1) known.2

namespace Rule

theorem yields_constant {α : Type} {P : α → Prop} (value : α) (words : List String) (holds : P value) :
    (constant value words).Yields P :=
  yields_then _ _ fun _ => yields_pure _ holds

theorem yields_attributed {α : Type} {P : Attribute → Prop} (make : α → Attribute) (intro : List String) (r : Rule α)
    (holds : ∀ a, P (make a)) : (attributed make intro r).Yields P :=
  yields_then _ _ fun _ => yields_then _ _ fun a => yields_pure _ (holds a)

theorem known_columnAttribute (d : Dialect) : (columnAttribute d).Yields Attribute.Known := by
  apply yields_choice
  have key (option : Tree.KeyOption) (words : List String) (known : Known option) :
      (constant (.key option) words).Yields Attribute.Known := yields_constant _ _ known
  simp only [List.forall_mem_cons]
  refine ⟨yields_constant _ _ trivial, yields_constant _ _ trivial, yields_attributed _ _ _ fun _ => trivial,
    yields_constant _ _ trivial, key _ _ nofun, key _ _ nofun, key _ _ nofun, key _ _ nofun, key _ _ nofun,
    yields_attributed _ _ _ fun _ => trivial, ?_, yields_attributed _ _ _ fun _ => trivial, ?_, List.forall_mem_nil _⟩
  · exact yields_then _ _ fun _ => yields_then _ _ fun _ => yields_pure _ trivial
  · exact yields_then _ _ fun _ => yields_then _ _ fun _ => yields_pure _ trivial

theorem keyless_columnType (d : Dialect) : (columnType d).Yields fun type => type.keyOption = .none := by
  apply yields_choice
  simp only [List.forall_mem_cons]
  refine ⟨?_, ?_, List.forall_mem_nil _⟩
  · exact yields_then _ _ fun _ => yields_then _ _ fun _ => yields_pure _ rfl
  · exact yields_then _ _ fun _ => yields_then _ _ fun _ => yields_pure _ rfl

theorem known_column (d : Dialect) : (column d).Yields fun c => Known c.type.keyOption := by
  refine yields_then _ _ fun _ => yields_then _ _ fun name => ?_
  refine yields_bind _ _ (keyless_columnType d) fun type keyless => ?_
  refine yields_then _ _ fun unsigned => yields_then _ _ fun zerofill => ?_
  refine yields_bind _ _ (yields_many _ (known_columnAttribute d)) fun attributes known => yields_pure _ ?_
  refine known_foldl attributes _ ?_ known
  rw [keyless]
  nofun

theorem known_item (d : Dialect) : (item d).Yields fun i => ∀ c ∈ i.column?, Known c.type.keyOption := by
  apply yields_choice
  simp only [List.forall_mem_cons]
  refine ⟨?_, ?_, List.forall_mem_nil _⟩
  · refine yields_then _ _ fun index => yields_pure _ ?_
    simp [Item.column?]
  · refine yields_bind _ _ (known_column d) fun c known => yields_pure _ ?_
    simpa [Item.column?] using known

/-- No statement that is read has a column with an unknown key option. -/
theorem known_statement (d : Dialect) :
    (statement d).Yields fun s => ∀ body ∈ s.body, ∀ c ∈ body.columns, Known c.type.keyOption := by
  have table : (createTable d).Yields fun s => ∀ body ∈ s.body, ∀ c ∈ body.columns, Known c.type.keyOption := by
    refine yields_then _ _ fun _ => yields_then _ _ fun _ => yields_then _ _ fun _ => yields_then _ _ fun _ => ?_
    refine yields_then _ _ fun newName => ?_
    refine yields_bind _ _ (yields_parenthesized _ (yields_listOf comma _ (known_item d))) fun items known => ?_
    refine yields_then _ _ fun options => yields_pure _ ?_
    intro body same c member
    cases same
    obtain ⟨i, inside, found⟩ := List.mem_filterMap.mp member
    exact known.2 i inside c found
  intro c s after found
  rcases statement_cases d c after s found with defined | tableless | ⟨rfl, _⟩
  · exact table c s after defined
  · simp [tableless.2]
  · nofun

end Rule
end SqlSchema.Reader
