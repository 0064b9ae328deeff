import SqlSchema.Proofs.Reader.Failing
import SqlSchema.Proofs.Reader.WellFormed

/-! Numerals in trees. Every literal of a number's kind looks like a number of that kind, and its characters are drawn
from the text. -/
namespace SqlSchema
open Text Reader

/-- What a number of the kind looks like. -/
def NumberKind.Shape : NumberKind → List Char → Prop
  | .integer => IsInteger
  | .float => IsFloat

def NumberKind.literal : NumberKind → Tree.LiteralKind
  | .integer => .integer
  | .float => .float

namespace Tree

variable (Q : Char → Prop)

/-- If the literal is a number, it looks like one, and all its characters have the property. -/
def Literal.Drawn (l : Literal) : Prop :=
  ∀ kind : NumberKind, l.kind = kind.literal → kind.Shape l.text.toList ∧ ∀ c ∈ l.text.toList, Q c

structure ColumnType.Drawn (t : ColumnType) : Prop where
  default : ∀ l ∈ t.default, l.Drawn Q
  length : ∀ l ∈ t.length, l.Drawn Q
  scale : ∀ l ∈ t.scale, l.Drawn Q

def Index.Drawn (i : Index) : Prop := ∀ c ∈ i.columns, ∀ l ∈ c.length, l.Drawn Q

structure TableBody.Drawn (body : TableBody) : Prop where
  columns : ∀ c ∈ body.columns, c.type.Drawn Q
  indexes : ∀ i ∈ body.indexes, i.Drawn Q

variable {Q}

/-- The details of a table hold its literals. -/
theorem TableBody.Drawn.details {body : TableBody} (drawn : body.Drawn Q) (l : Literal)
    (member : .literal (some l) ∈ body.details) : l.Drawn Q := by
  simp only [TableBody.details, Column.details, Index.details, List.mem_append, List.mem_flatMap, List.mem_cons,
    List.mem_map, List.not_mem_nil, or_false, reduceCtorEq, Detail.literal.injEq] at member
  rcases member with ⟨c, inside, default | length | scale⟩ | ⟨i, inside, part, among, length⟩
  · exact (drawn.columns c inside).default l default.symm
  · exact (drawn.columns c inside).length l length.symm
  · exact (drawn.columns c inside).scale l scale.symm
  · exact drawn.indexes i inside part among l length

end Tree

/-- Of all attributes, only default values hold literals that are decoded. -/
def Reader.Attribute.Drawn (Q : Char → Prop) : Attribute → Prop
  | .default l => l.Drawn Q
  | _ => True

namespace Reader.Rule
open SqlSchema.Tree

variable {α β : Type} {Q : Char → Prop}

/-- What is left of the text has characters with the property only. -/
def Left (Q : Char → Prop) (c : Cursor) : Prop := ∀ ch ∈ c.rest, Q ch

theorem Left.advance {c : Cursor} (left : Left Q c) (n : Nat) : Left Q (c.advance n) :=
  fun ch member => left ch (List.mem_of_mem_drop member)

theorem Left.skipGap {c : Cursor} (left : Left Q c) : Left Q c.skipGap := left.advance _

theorem preserved_left : Preserved (Left Q) fun _ => True where
  position _ _ := trivial
  size _ _ := trivial
  advance _ n left _ _ := left.advance n
  keyword word _ c after left reads := by
    obtain ⟨_, _, _, rfl⟩ := (reads_keyword ..).mp reads
    exact left.skipGap.advance _
  failure _ _ _ _ _ _ := trivial

theorem Composed.left {r : Rule α} (composed : r.Composed) {c after : Cursor} {a : α} (here : Left Q c)
    (reads : r.Reads c a after) : Left Q after :=
  (composed.preserves preserved_left c here).1 a after reads

/-- From a text whose characters have the one property, the rule reads what has the other. -/
def Draws (Q : Char → Prop) (r : Rule α) (P : α → Prop) : Prop := ∀ c a after, Left Q c → r.Reads c a after → P a

section Draws
variable {P : α → Prop} {R : β → Prop}

theorem draws_of_yields {r : Rule α} (yields : r.Yields P) : r.Draws Q P := fun c a after _ => yields c a after

theorem draws_bind {r : Rule α} {next : α → Rule β} (composed : r.Composed) (first : r.Draws Q P)
    (second : ∀ a, P a → (next a).Draws Q R) : (r >>= next).Draws Q R := by
  intro c b last left found
  obtain ⟨a, after, head, tail⟩ := (reads_bind ..).mp found
  exact second a (first c a after left head) after b last (composed.left left head) tail

theorem draws_then {r : Rule α} {next : α → Rule β} (composed : r.Composed) (second : ∀ a, (next a).Draws Q R) :
    (r >>= next).Draws Q R :=
  draws_bind composed (draws_of_yields r.yields_any) fun a _ => second a

theorem draws_pure (a : α) (holds : P a) : (pure a : Rule α).Draws Q P := draws_of_yields (yields_pure a holds)

theorem draws_optional {r : Rule α} (each : r.Draws Q P) : (optional r).Draws Q fun found => ∀ a ∈ found, P a := by
  intro c found after left reads
  rcases (reads_optional ..).mp reads with ⟨a, rfl, here⟩ | ⟨rfl, _⟩
  · rintro _ ⟨rfl⟩
    exact each c a after left here
  · nofun

theorem draws_choice {name : Shape} {rules : List (Rule α)} (each : ∀ r ∈ rules, r.Draws Q P) :
    (choice name rules).Draws Q P := by
  intro c a after left found
  obtain ⟨r, member, reads⟩ := ((reads_choice ..).mp found).exists_mem
  exact each r member c a after left reads

theorem forall_mem_repeatFrom_left {r : Rule α} (composed : r.Composed) (each : r.Draws Q P) (c : Cursor)
    (left : Left Q c) : ∀ a ∈ (repeatFrom r c).1, P a := by
  fun_induction repeatFrom r c with
  | case1 c first after found shorter more last repeated ih =>
    rw [repeated] at ih
    exact List.forall_mem_cons.mpr ⟨each c first after left found, ih (composed.left left found)⟩
  | case2 c first after found stuck => exact List.forall_mem_singleton.mpr (each c first after left found)
  | case3 c failure => exact List.forall_mem_nil _

theorem draws_many {r : Rule α} (composed : r.Composed) (each : r.Draws Q P) :
    (many r).Draws Q fun all => ∀ a ∈ all, P a := by
  intro c all after left found
  have same : repeatFrom r ((many r).origin c) = (all, after) := Except.ok.inj found
  have holds := forall_mem_repeatFrom_left composed each _ (preserved_left.origin (many r) left)
  rwa [same] at holds

theorem draws_listOf {r : Rule α} (composed : r.Composed) (each : r.Draws Q P) :
    (listOf comma r).Draws Q fun all => ∀ a ∈ all, P a := by
  have later : (do
      comma
      r : Rule α).Draws Q P := draws_then (.mark ',') fun _ => each
  refine draws_bind composed each fun first holds => ?_
  refine draws_bind (.many (.bind (.mark ',') fun _ => composed))
    (draws_many (.bind (.mark ',') fun _ => composed) later) fun more rest => ?_
  exact draws_pure _ (List.forall_mem_cons.mpr ⟨holds, rest⟩)

theorem draws_parenthesized {r : Rule α} (composed : r.Composed) (each : r.Draws Q P) :
    (parenthesized r).Draws Q P :=
  draws_then (.mark '(') fun _ => draws_bind composed each fun _ holds =>
    draws_then (.mark ')') fun _ => draws_pure _ holds

end Draws

/-! Literals. -/

theorem draws_sized (kind : NumberKind) (name : String) {size? : List Char → Option Nat}
    (spans : ∀ {cs size}, size? cs = some size → Spans kind.Shape cs size) :
    (sized kind.literal name size?).Draws Q (Literal.Drawn Q) := by
  intro c l after left found
  obtain ⟨_, recognised, _⟩ := (reads_recognised ..).mp found
  obtain ⟨size, measured, same⟩ := Option.map_eq_some_iff.mp recognised
  cases same
  obtain ⟨taken, rest, split, shape, rfl⟩ := spans measured
  have whole : c.skipGap.rest.take taken.length = taken := by rw [split, List.take_left]
  intro other same
  have kinds : other = kind := by cases other <;> cases kind <;> first | rfl | contradiction
  subst kinds
  dsimp only
  rw [whole, String.toList_ofList]
  exact ⟨shape, fun ch member => left.skipGap ch (split ▸ List.mem_append_left _ member)⟩

/-- Other literals need not look like anything. -/
theorem draws_kind {r : Rule Literal} {kind : LiteralKind} (yields : r.Yields fun l => l.kind = kind)
    (other : kind ≠ .integer ∧ kind ≠ .float) : r.Draws Q (Literal.Drawn Q) := by
  intro c l after _ found number same
  rw [yields c l after found] at same
  cases number with
  | integer => exact absurd same other.1
  | float => exact absurd same other.2

theorem kind_lettered (kind : LiteralKind) (name : String) (letter : Char) (isPart : Char → Bool) :
    (lettered kind name letter isPart).Yields fun l => l.kind = kind := by
  intro c l after found
  obtain ⟨_, recognised, _⟩ := (reads_recognised ..).mp found
  obtain ⟨_, _, same⟩ := Option.map_eq_some_iff.mp recognised
  cases same
  rfl

theorem kind_stringLiteral (d : Dialect) : (stringLiteral d).Yields fun l => l.kind = .string :=
  yields_then _ _ fun _ => yields_pure _ rfl

theorem kind_wordValue (text : String) (r : Rule Unit) : (wordValue text r).Yields fun l => l.kind = .placeholder :=
  yields_then _ _ fun _ => yields_pure _ rfl

theorem draws_integer : integer.Draws Q (Literal.Drawn Q) := draws_sized .integer _ spans_integer

theorem draws_literal (d : Dialect) : (literal d).Draws Q (Literal.Drawn Q) := by
  apply draws_choice
  simp only [List.forall_mem_cons]
  exact ⟨draws_kind (kind_lettered _ _ _ _) (by decide), draws_kind (kind_lettered _ _ _ _) (by decide),
    draws_kind (kind_sized _ _ _) (by decide), draws_sized .float _ spans_float, draws_integer,
    draws_kind (kind_stringLiteral d) (by decide), draws_kind (kind_sized _ _ _) (by decide), List.forall_mem_nil _⟩

theorem draws_value (d : Dialect) : (value d).Draws Q (Literal.Drawn Q) := by
  have word (text : String) (r : Rule Unit) : (wordValue text r).Draws Q (Literal.Drawn Q) :=
    draws_kind (kind_wordValue text r) (by decide)
  apply draws_choice
  simp only [List.forall_mem_cons]
  exact ⟨draws_literal d, word _ _, word _ _, word _ _, word _ _, List.forall_mem_nil _⟩

theorem draws_defaultValue (d : Dialect) : (defaultValue d).Draws Q (Literal.Drawn Q) := by
  cases d with
  | mysql => exact draws_value .mysql
  | postgres =>
    exact draws_bind (composed_value .postgres) (draws_value .postgres) fun _ drawn =>
      draws_then (.optional composed_cast) fun _ => draws_pure _ drawn

/-! Columns. -/

theorem draws_columnAttribute (d : Dialect) : (columnAttribute d).Draws Q (Attribute.Drawn Q) := by
  have introduced (intro : List String) (known : ∀ word ∈ intro, word ∈ vocabulary) :
      (attributed .default intro (defaultValue d)).Draws Q (Attribute.Drawn Q) :=
    draws_then (composed_keywords intro known) fun _ => draws_bind (composed_defaultValue d) (draws_defaultValue d)
      fun _ drawn => draws_pure _ drawn
  have constant (a : Attribute) (words : List String) (drawn : a.Drawn Q) :
      (constant a words).Draws Q (Attribute.Drawn Q) := draws_of_yields (yields_constant a words drawn)
  have other {α : Type} (make : α → Attribute) (intro : List String) (r : Rule α) (drawn : ∀ a, (make a).Drawn Q) :
      (attributed make intro r).Draws Q (Attribute.Drawn Q) := draws_of_yields (yields_attributed make intro r drawn)
  apply draws_choice
  simp only [List.forall_mem_cons]
  refine ⟨constant _ _ trivial, constant _ _ trivial, introduced _ (by decide), constant _ _ trivial,
    constant _ _ trivial, constant _ _ trivial, constant _ _ trivial, constant _ _ trivial, constant _ _ trivial,
    other _ _ _ fun _ => trivial, ?_, other _ _ _ fun _ => trivial, ?_, List.forall_mem_nil _⟩
  · exact draws_of_yields (yields_then _ _ fun _ => yields_then _ _ fun _ => yields_pure _ trivial)
  · exact draws_of_yields (yields_then _ _ fun _ => yields_then _ _ fun _ => yields_pure _ trivial)

theorem draws_size : size.Draws Q fun s => s.1.Drawn Q ∧ ∀ l ∈ s.2, l.Drawn Q := by
  have scale : (do
      comma
      integer : Rule Literal).Draws Q (Literal.Drawn Q) := draws_then (.mark ',') fun _ => draws_integer
  refine draws_parenthesized (.bind composed_integer fun _ => .bind (.optional composed_scale) fun _ => .pure _) ?_
  refine draws_bind composed_integer draws_integer fun length whole => ?_
  exact draws_bind (.optional composed_scale) (draws_optional scale) fun _ finer => draws_pure _ ⟨whole, finer⟩

theorem draws_columnType (d : Dialect) : (columnType d).Draws Q (ColumnType.Drawn Q) := by
  apply draws_choice
  simp only [List.forall_mem_cons]
  refine ⟨?_, ?_, List.forall_mem_nil _⟩
  · exact draws_of_yields (yields_then _ _ fun _ => yields_then _ _ fun _ => yields_pure _ ⟨nofun, nofun, nofun⟩)
  · refine draws_then composed_typeName fun name => ?_
    refine draws_bind (.optional composed_size) (draws_optional draws_size) fun size drawn => draws_pure _ ?_
    cases size with
    | none => exact ⟨nofun, nofun, nofun⟩
    | some size =>
      obtain ⟨length, scale⟩ := drawn size rfl
      refine ⟨nofun, ?_, scale⟩
      rintro l ⟨rfl⟩
      exact length

theorem drawn_foldl (attributes : List Attribute) (type : ColumnType) (drawn : type.Drawn Q)
    (each : ∀ a ∈ attributes, a.Drawn Q) : (attributes.foldl Attribute.apply type).Drawn Q := by
  induction attributes generalizing type with
  | nil => exact drawn
  | cons a rest ih =>
    obtain ⟨here, later⟩ := List.forall_mem_cons.mp each
    refine ih (a.apply type) ?_ later
    cases a with
    | default l =>
      refine ⟨?_, drawn.length, drawn.scale⟩
      rintro _ ⟨rfl⟩
      exact here
    | _ => exact ⟨drawn.default, drawn.length, drawn.scale⟩

theorem draws_column (d : Dialect) : (column d).Draws Q fun c => c.type.Drawn Q := by
  refine draws_then (.without _ (composed_anyKeyword _ _ (by decide))) fun _ => ?_
  refine draws_then (composed_identifier d) fun name => ?_
  refine draws_bind (composed_columnType d) (draws_columnType d) fun type drawn => ?_
  refine draws_then (.optional (.keyword _ (by decide))) fun unsigned => ?_
  refine draws_then (.optional (.keyword _ (by decide))) fun zerofill => ?_
  refine draws_bind (.many (composed_columnAttribute d))
    (draws_many (composed_columnAttribute d) (draws_columnAttribute d)) fun attributes each => ?_
  exact draws_pure _ (drawn_foldl attributes _ ⟨drawn.default, drawn.length, drawn.scale⟩ each)

/-! Indexes. -/

theorem draws_indexColumns (d : Dialect) :
    (indexColumns d).Draws Q fun columns => ∀ c ∈ columns, ∀ l ∈ c.length, l.Drawn Q := by
  have column : (indexColumn d).Draws Q fun c => ∀ l ∈ c.length, l.Drawn Q := by
    refine draws_then (composed_identifier d) fun name => ?_
    refine draws_bind (.optional (composed_parenthesized composed_integer))
      (draws_optional (draws_parenthesized composed_integer draws_integer)) fun length drawn => ?_
    exact draws_then composed_direction fun _ => draws_pure _ drawn
  exact draws_parenthesized (composed_listOf (composed_indexColumn d)) (draws_listOf (composed_indexColumn d) column)

theorem draws_indexBody (d : Dialect) :
    (indexBody d).Draws Q fun body => ∀ c ∈ body.2, ∀ l ∈ c.length, l.Drawn Q := by
  refine draws_then (.optional (composed_indexName d)) fun name => draws_then (.optional composed_usingMethod) fun _ => ?_
  refine draws_bind (composed_indexColumns d) (draws_indexColumns d) fun columns drawn => ?_
  exact draws_then (.optional composed_usingMethod) fun _ => draws_pure _ drawn

theorem draws_index (d : Dialect) : (index d).Draws Q (Index.Drawn Q) := by
  apply draws_choice
  simp only [List.forall_mem_cons]
  refine ⟨?_, ?_, ?_, List.forall_mem_nil _⟩
  · refine draws_then (.optional (composed_constraintName d)) fun constraint => ?_
    refine draws_then composed_primaryKey fun _ => draws_then (.optional composed_usingMethod) fun _ => ?_
    refine draws_bind (composed_indexColumns d) (draws_indexColumns d) fun columns drawn => ?_
    exact draws_then (.optional composed_usingMethod) fun _ => draws_pure _ drawn
  · refine draws_then (.optional (composed_constraintName d)) fun constraint => ?_
    refine draws_then composed_uniqueType fun type => ?_
    refine draws_bind (composed_indexBody d) (draws_indexBody d) ?_
    rintro ⟨name, columns⟩ drawn
    exact draws_pure _ drawn
  · refine draws_then composed_keyType fun type => draws_bind (composed_indexBody d) (draws_indexBody d) ?_
    rintro ⟨name, columns⟩ drawn
    exact draws_pure _ drawn

/-! Statements. -/

def Item.Drawn (Q : Char → Prop) : Item → Prop
  | .column c => c.type.Drawn Q
  | .index i => i.Drawn Q

theorem draws_item (d : Dialect) : (item d).Draws Q (Item.Drawn Q) := by
  apply draws_choice
  simp only [List.forall_mem_cons]
  refine ⟨?_, ?_, List.forall_mem_nil _⟩
  · exact draws_bind (composed_index d) (draws_index d) fun i drawn => draws_pure _ drawn
  · exact draws_bind (composed_column d) (draws_column d) fun c drawn => draws_pure _ drawn

theorem drawn_body (items : List Item) (options : String) (drawn : ∀ item ∈ items, item.Drawn Q) : TableBody.Drawn Q
    { columns := items.filterMap Item.column?, indexes := items.filterMap Item.index?, options } := by
  constructor
  · intro c member
    obtain ⟨item, inside, found⟩ := List.mem_filterMap.mp member
    cases item <;> cases found
    exact drawn _ inside
  · intro i member
    obtain ⟨item, inside, found⟩ := List.mem_filterMap.mp member
    cases item <;> cases found
    exact drawn _ inside

theorem draws_createTable (d : Dialect) : (createTable d).Draws Q fun s => ∀ body ∈ s.body, body.Drawn Q := by
  refine draws_then (.keyword _ (by decide)) fun _ => draws_then (.optional (.keyword _ (by decide))) fun _ => ?_
  refine draws_then (.keyword _ (by decide)) fun _ => ?_
  refine draws_then (.optional (composed_keywords _ (by decide))) fun _ => draws_then (composed_table d) fun name => ?_
  refine draws_bind (composed_parenthesized (composed_listOf (composed_item d)))
    (draws_parenthesized (composed_listOf (composed_item d)) (draws_listOf (composed_item d) (draws_item d)))
    fun items drawn => draws_then (.optional composed_rest) fun options => draws_pure _ ?_
  rintro body ⟨rfl⟩
  exact drawn_body items _ drawn

theorem draws_statement (d : Dialect) : (statement d).Draws Q fun s => ∀ body ∈ s.body, body.Drawn Q := by
  intro c s after left found
  rcases statement_cases d c after s found with defined | tableless | ⟨rfl, _⟩
  · exact draws_createTable d c s after left defined
  · simp [tableless.2]
  · nofun

end Reader.Rule
end SqlSchema
