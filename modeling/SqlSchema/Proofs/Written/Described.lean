import SqlSchema.Proofs.Written.RoundTrip

/-! A table of one column with attributes in any order and any number. Of the attributes that speak of the same
property the last one tells it, so attributes that speak of different properties may change places. -/
namespace SqlSchema.Written
open Text Reader

namespace Trait

/-! What an attribute says of a property, if it speaks of it at all. -/

def notNull? : Trait → Option Bool
  | .notNull => some true
  | .null => some false
  | _ => none

def default? : Trait → Option Tree.Literal
  | .default n => some n.literal
  | .defaultNull => some ⟨.placeholder, "null"⟩
  | _ => none

def autoIncrement? : Trait → Option Bool
  | .autoIncrement => some true
  | _ => none

def key? : Trait → Option Tree.KeyOption
  | .key k => some k.tree
  | _ => none

def charset? : Trait → Option String
  | .charset w | .characterSet w => some w.text
  | _ => none

def collate? : Trait → Option String
  | .collate w => some w.text
  | _ => none

section Last
variable {α : Type} (says? : Trait → Option α)

/-- What is said last. -/
def last? (ts : List Trait) : Option α := (ts.filterMap says?).getLast?

theorem last?_cons (t : Trait) (ts : List Trait) : last? says? (t :: ts) = (last? says? ts).or (says? t) := by
  unfold last?
  cases said : says? t with
  | none => rw [List.filterMap_cons_none said, Option.or_none]
  | some a => rw [List.filterMap_cons_some said, List.getLast?_cons, Option.or_some]

end Last

/-- Reading one attribute after the other leaves of each property what is said last. -/
theorem foldl_apply (ts : List Trait) (type : Tree.ColumnType) :
    (ts.map tree).foldl Attribute.apply type =
      { type with
        notNull := (last? notNull? ts).getD type.notNull
        default := (last? default? ts).or type.default
        autoIncrement := (last? autoIncrement? ts).getD type.autoIncrement
        keyOption := (last? key? ts).getD type.keyOption
        charset := (last? charset? ts).getD type.charset
        collate := (last? collate? ts).getD type.collate } := by
  induction ts generalizing type with
  | nil => rfl
  | cons t others ih =>
    rw [List.map_cons, List.foldl_cons, ih]
    simp only [last?_cons]
    cases t <;> simp [tree, Attribute.apply, notNull?, default?, autoIncrement?, key?, charset?, collate?]

inductive Property where
  | nullability
  | default
  | increment
  | key
  | charset
  | collation
deriving DecidableEq

/-- `ON UPDATE` leaves no trace. -/
def property? : Trait → Option Property
  | .notNull | .null => some .nullability
  | .default _ | .defaultNull => some .default
  | .autoIncrement => some .increment
  | .key _ => some .key
  | .charset _ | .characterSet _ => some .charset
  | .collate _ => some .collation
  | .onUpdate => none

/-- Neighbours that speak of different properties change places, again and again. -/
inductive Rearranged : List Trait → List Trait → Prop
  | refl (ts : List Trait) : Rearranged ts ts
  | swap {t u : Trait} (differ : ∀ p, t.property? = some p → u.property? ≠ some p) (ts : List Trait) :
      Rearranged (t :: u :: ts) (u :: t :: ts)
  | cons (t : Trait) {ts us : List Trait} (later : Rearranged ts us) : Rearranged (t :: ts) (t :: us)
  | trans {ts us vs : List Trait} (first : Rearranged ts us) (second : Rearranged us vs) : Rearranged ts vs

theorem apply_comm {t u : Trait} (differ : ∀ p, t.property? = some p → u.property? ≠ some p) (type : Tree.ColumnType) :
    Attribute.apply (Attribute.apply type t.tree) u.tree = Attribute.apply (Attribute.apply type u.tree) t.tree := by
  cases t <;> cases u <;> first | rfl | exact absurd rfl (differ _ rfl)

theorem Rearranged.foldl {ts us : List Trait} (rearranged : Rearranged ts us) (type : Tree.ColumnType) :
    (us.map tree).foldl Attribute.apply type = (ts.map tree).foldl Attribute.apply type := by
  induction rearranged generalizing type with
  | refl ts => rfl
  | swap differ ts => simp only [List.map_cons, List.foldl_cons, apply_comm differ]
  | cons t _ ih => exact ih _
  | trans _ _ first second => exact (second type).trans (first type)

end Trait

/-- A column, and the attributes behind its type. -/
structure Described where
  name : Label
  type : Word
  traits : List Trait
deriving DecidableEq

namespace Described

def chars (d : Dialect) (c : Described) : List Char :=
  c.name.quoted d ++ ' ' :: (c.type.text.toList ++ c.traits.flatMap Trait.chars)

/-- The statement that creates a table of this column. -/
def statement (d : Dialect) (t : TableName) (c : Described) : List Char :=
  "CREATE".toList ++ (spaced ["TABLE"] ++ ' ' :: (t.chars d ++ ' ' :: '(' :: (c.chars d ++ [')'])))

/-- The column of which each property is what is said of it last. -/
def column (c : Described) : Tree.Column :=
  { name := c.name.text
    type := {
      name := c.type.text.toLower
      notNull := (Trait.last? Trait.notNull? c.traits).getD false
      default := Trait.last? Trait.default? c.traits
      autoIncrement := (Trait.last? Trait.autoIncrement? c.traits).getD false
      keyOption := (Trait.last? Trait.key? c.traits).getD .none
      charset := (Trait.last? Trait.charset? c.traits).getD ""
      collate := (Trait.last? Trait.collate? c.traits).getD "" } }

def tree (t : TableName) (c : Described) : Tree.SchemaStatement :=
  { action := Tree.Action.create
    newName := some t.tree
    body := some { columns := [c.column], indexes := [] } }

theorem column_eq (c : Described) : c.column =
    ⟨c.name.text, (c.traits.map Trait.tree).foldl Attribute.apply { name := c.type.text.toLower }⟩ := by
  rw [Trait.foldl_apply, Option.or_none]
  rfl

theorem column_rearranged {c : Described} {others : List Trait} (rearranged : Trait.Rearranged c.traits others) :
    { c with traits := others }.column = c.column := by
  rw [column_eq, column_eq, rearranged.foldl]

/-- Nothing stands behind a word `GO`. -/
def Intact (c : Described) : Prop :=
  (c.type.text = "GO" → c.traits = []) ∧ c.traits.IsChain fun t _ => ¬ t.Separates

instance (c : Described) : Decidable c.Intact := inferInstanceAs (Decidable (_ ∧ List.IsChain _ _))

theorem joined_single {d : Dialect} (c : Described) : joined 0 ([c].map (chars d)) = c.chars d := by simp [joined]

theorem neat {d : Dialect} {n : Nat} {rest : List Char} (c : Described) (intact : c.Intact)
    (closed : Reader.Closed rest) (neat : Neat d n rest) : Neat d n (c.chars d ++ rest) := by
  have traits := Behind.traits closed neat c.traits intact.2
  have apart : c.type.text = "GO" → (c.traits.flatMap Trait.chars ++ rest).head? ≠ some ' ' := by
    intro go
    rw [intact.1 go]
    exact closed.no_space
  have split : c.chars d ++ rest =
      c.name.quoted d ++ ' ' :: (c.type.text.toList ++ (c.traits.flatMap Trait.chars ++ rest)) := by simp [chars]
  rw [split]
  exact (traits.spacedWord c.type apart).quoted c.name

theorem neat_statement (d : Dialect) (t : TableName) (c : Described) (intact : c.Intact) : Neat d 0 (c.statement d t) := by
  have each : ∀ b ∈ [c], ∀ rest, Reader.Closed rest → Neat d 1 rest → Neat d 1 (b.chars d ++ rest) := by
    rintro b member rest closed neat
    cases List.mem_singleton.mp member
    exact c.neat intact closed neat
  have items := Behind.listed 0 (chars d) [c] (by decide) .nil each
  rw [joined_single] at items
  exact ((items.table t).spaced ["TABLE"] (by decide +kernel)).word "CREATE" (by decide +kernel)

end Described
end SqlSchema.Written

namespace SqlSchema.Reader.Rule
open Text Written

variable {rest : List Char}

theorem takes_described (d : Dialect) (c : Described) (unfused : Unfused c.traits) (closed : Closed rest) :
    (item d).Takes (c.chars d ++ rest) (.column c.column) rest := by
  have onward := onward_traits c.traits closed
  have wide : Onward columnWords (c.traits.flatMap Trait.chars ++ rest) :=
    onward.mono fun _ member => List.mem_cons_of_mem _ (List.mem_cons_of_mem _ member)
  have split : c.chars d ++ rest =
      c.name.quoted d ++ ' ' :: (c.type.text.toList ++ withSize none (c.traits.flatMap Trait.chars ++ rest)) := by
    simp [Described.chars, withSize]
  have foreign : Foreign indexWords (c.chars d ++ rest) := foreign_nameMark d
  have name : (identifier d).Takes (c.chars d ++ rest) c.name.text
      (' ' :: (c.type.text.toList ++ withSize none (c.traits.flatMap Trait.chars ++ rest))) := by
    rw [split]
    exact takes_identifier d c.name (Parted.ne_nameMark (parted_cons ' ' _ (by decide)) d)
  have type := (takes_gap ' ' rfl).mpr (takes_columnType d c.type none wide)
  have taken := takes_bareColumn foreign name type onward (repeats_traits d c.traits unfused closed)
  have index : (do return .index (← index d) : Rule Item).Refuses (c.chars d ++ rest) := (refuses_index d foreign).bind
  rw [Described.column_eq]
  exact index.choice (Takes.choice _ (taken.bind (takes_pure _ _)))

theorem takes_describedTable (d : Dialect) (t : Written.TableName) (c : Described) (unfused : Unfused c.traits) :
    (statement d).Takes (c.statement d t) (c.tree t) [] := by
  have each : ∀ b ∈ [c], ∀ rest, Closed rest → (item d).Takes (b.chars d ++ rest) (.column b.column) rest := by
    intro b member rest closed
    cases List.mem_singleton.mp member
    exact takes_described d c unfused closed
  have items : (parenthesized (listOf comma (item d))).Takes (' ' :: '(' :: (c.chars d ++ [')'])) [.column c.column] [] := by
    rw [← c.joined_single]
    exact (takes_gap ' ' rfl).mpr (takes_parenthesized
      (takes_listOf 0 (Described.chars d) (fun b => Item.column b.column) [c] (List.cons_ne_nil _ _) each))
  have name := takes_spacedTable d t '(' (by decide) (by decide) (c.chars d ++ [')'])
  have named := named_table d t (' ' :: '(' :: (c.chars d ++ [')']))
  exact takes_create d (named.refuses_keyword "IF" (by decide)) name items

end SqlSchema.Reader.Rule

namespace SqlSchema.Written.Described
open Reader

theorem gives_tree (d : Dialect) (t : TableName) (c : Described) (unfused : Unfused c.traits) (intact : c.Intact) :
    (Tree.read d (String.ofList (c.statement d t))).Gives (.schema (c.tree t)) := by
  have ended : (c.statement d t).getLast? = some ')' := by
    delta statement
    simp [List.getLast?_append, List.getLast?_cons]
  exact gives_tree_of_takes "CREATE" (neat_statement d t c intact) (by decide) ⟨_, rfl⟩ ended
    (Rule.takes_describedTable d t c unfused)

/-- Each property is read as what is said of it last, and as the same if attributes that speak of different properties
change places. -/
theorem gives_last_said (d : Dialect) (t : TableName) (c : Described) (unfused : Unfused c.traits) (intact : c.Intact) :
    (Tree.read d (String.ofList (c.statement d t))).Gives (.schema (c.tree t)) ∧
      ∀ others, Trait.Rearranged c.traits others → Unfused others → Intact { c with traits := others } →
        (Tree.read d (String.ofList (statement d t { c with traits := others }))).Gives (.schema (c.tree t)) := by
  refine ⟨gives_tree d t c unfused intact, fun others rearranged unfused intact => ?_⟩
  have given := gives_tree d t { c with traits := others } unfused intact
  rwa [tree, column_rearranged rearranged] at given

/-- `NULL` is taken back later, and `GO` ends the last attribute. -/
def sample : Described where
  name := Table.sample.name.name
  type := ⟨"Int", by decide, by decide⟩
  traits := [.null, .default Numeral.minusSeven, .key .unique, .onUpdate, .notNull, .collate .go]

/-- The default and `ON UPDATE` have changed places with their neighbours. -/
def sampleRearranged : List Trait :=
  [.default Numeral.minusSeven, .null, .key .unique, .notNull, .onUpdate, .collate .go]

theorem gives_last_said_sample :
    String.ofList (sample.statement .mysql Table.sample.name) = "CREATE TABLE \x60-- s\x60.\x60a\x60\x60b\x60 (" ++
        "\x60a\x60\x60b\x60 Int NULL DEFAULT -7 UNIQUE ON UPDATE CURRENT_TIMESTAMP NOT NULL COLLATE GO)" ∧
      (Unfused sample.traits ∧ sample.Intact) ∧ sample.column.type.notNull = true ∧
      (Tree.read .mysql (String.ofList (sample.statement .mysql Table.sample.name))).Gives
        (.schema (sample.tree Table.sample.name)) ∧
      (Trait.Rearranged sample.traits sampleRearranged ∧ Unfused sampleRearranged ∧
        Intact { sample with traits := sampleRearranged }) ∧
      (Tree.read .mysql (String.ofList (statement .mysql Table.sample.name
        { sample with traits := sampleRearranged }))).Gives (.schema (sample.tree Table.sample.name)) := by
  have rearranged : Trait.Rearranged sample.traits sampleRearranged :=
    .trans (.swap (by simp [Trait.property?]) _) (.cons _ (.cons _ (.cons _ (.swap (by simp [Trait.property?]) _))))
  obtain ⟨given, again⟩ := gives_last_said .mysql Table.sample.name sample (by decide) (by decide)
  exact ⟨by decide +kernel, by decide, by decide, given, ⟨rearranged, by decide, by decide⟩,
    again sampleRearranged rearranged (by decide) (by decide)⟩

/-- Something stands behind a word `GO`. -/
def separated : Described where
  name := Name.a
  type := ⟨"int", by decide, by decide⟩
  traits := [.charset .go, .notNull]

/-- The statement is cut at the word, and what follows becomes part of it. -/
theorem misreads_separated :
    String.ofList (separated.statement .mysql Table.separated.name) =
        "CREATE TABLE \x60t\x60 (\x60a\x60 int CHARSET GO NOT NULL)" ∧
      Unfused separated.traits ∧
      (Tree.read .mysql "CREATE TABLE \x60t\x60 (\x60a\x60 int CHARSET GO NOT NULL)").Gives
        (.schema { separated.tree Table.separated.name with
          body := some { columns := [⟨"a", { name := "int", charset := "GONOT" }⟩], indexes := [] } }) ∧
      ¬ (Tree.read .mysql "CREATE TABLE \x60t\x60 (\x60a\x60 int CHARSET GO NOT NULL)").Gives
        (.schema (separated.tree Table.separated.name)) := by
  have given : (Tree.read .mysql "CREATE TABLE \x60t\x60 (\x60a\x60 int CHARSET GO NOT NULL)").Gives
      (.schema { separated.tree Table.separated.name with
        body := some { columns := [⟨"a", { name := "int", charset := "GONOT" }⟩], indexes := [] } }) := by
    decide +kernel
  refine ⟨by decide +kernel, by decide, given, fun right => ?_⟩
  exact absurd (given.unique right) (by decide +kernel)

end SqlSchema.Written.Described
