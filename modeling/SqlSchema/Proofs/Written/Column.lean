import SqlSchema.Proofs.Written.Trait

/-! Column definitions as they are written: a quoted name, the word of a type with its size, and clauses in a fixed
order. The rules read them back, clause by clause. -/
namespace SqlSchema.Written
open Text Reader

/-- Length and scale of a type. -/
structure Size where
  length : Numeral
  scale : Option Numeral
deriving DecidableEq

def Size.chars (s : Size) : List Char :=
  '(' :: (s.length.chars ++ ((s.scale.map fun n => ',' :: n.chars).getD [] ++ [')']))

/-- What may stand behind the type of a column, signs and fillings apart. -/
inductive Clause where
  | notNull
  | default (n : Numeral)
  | autoIncrement
  | key (k : Key)
deriving DecidableEq

namespace Clause

def chars : Clause → List Char
  | .notNull => spaced ["NOT", "NULL"]
  | .default n => spaced ["DEFAULT"] ++ ' ' :: n.chars
  | .autoIncrement => spaced ["AUTO_INCREMENT"]
  | .key k => spaced k.words

def tree : Clause → Attribute
  | .notNull => .notNull true
  | .default n => .default n.literal
  | .autoIncrement => .autoIncrement
  | .key k => .key k.tree

def trait : Clause → Trait
  | .notNull => .notNull
  | .default n => .default n
  | .autoIncrement => .autoIncrement
  | .key k => .key k

theorem chars_trait (c : Clause) : c.trait.chars = c.chars := by cases c <;> rfl

theorem tree_trait (c : Clause) : c.trait.tree = c.tree := by cases c <;> rfl

theorem flatMap_trait (cs : List Clause) : (cs.map trait).flatMap Trait.chars = cs.flatMap chars := by
  rw [List.flatMap_map]
  exact List.flatMap_congr fun c _ => c.chars_trait

end Clause

/-- A word that is there or not. -/
def flag (given : Bool) (word : String) : List Char := if given then spaced [word] else []

structure Column where
  name : Name
  type : Word
  size : Option Size := none
  unsigned : Bool := false
  zerofill : Bool := false
  notNull : Bool := false
  default : Option Numeral := none
  autoIncrement : Bool := false
  key : Option Key := none
deriving DecidableEq

namespace Column

def clauses (c : Column) : List Clause :=
  (if c.notNull then [.notNull] else []) ++ (c.default.map .default).toList ++
    (if c.autoIncrement then [.autoIncrement] else []) ++ (c.key.map .key).toList

/-- All that stands behind the word of the type. -/
def tail (c : Column) : List Char :=
  (c.size.map Size.chars).getD [] ++ (flag c.unsigned "UNSIGNED" ++ (flag c.zerofill "ZEROFILL" ++
    c.clauses.flatMap Clause.chars))

def chars (d : Dialect) (c : Column) : List Char := c.name.quoted d ++ ' ' :: (c.type.text.toList ++ c.tail)

def tree (c : Column) : Tree.Column :=
  { name := c.name.text
    type := {
      name := c.type.text.toLower
      unsigned := c.unsigned
      zerofill := c.zerofill
      notNull := c.notNull
      autoIncrement := c.autoIncrement
      default := c.default.map Numeral.literal
      length := c.size.map (·.length.literal)
      scale := c.size.bind fun s => s.scale.map Numeral.literal
      keyOption := (c.key.map Key.tree).getD .none } }

/-- The column that is defined. -/
def decoded (c : Column) : SqlSchema.Column :=
  { name := c.name.text
    typeName := c.type.text.toLower
    unsigned := c.unsigned
    notNull := c.notNull
    autoIncrement := c.autoIncrement
    default := c.default.map Numeral.decoded
    length := c.size.map (·.length.decoded)
    scale := c.size.bind fun s => s.scale.map Numeral.decoded
    keyOption := (c.key.map Key.decoded).getD .none }

theorem gives_decoded (c : Column) : (Column.ofTree c.tree).Gives c.decoded := by
  have default := Numeral.gives_literal? c.default
  have length := Numeral.gives_literal? (c.size.map (·.length))
  have scale := Numeral.gives_literal? (c.size.bind (·.scale))
  have key : (KeyOption.ofTree ((c.key.map Key.tree).getD .none)).Gives ((c.key.map Key.decoded).getD .none) := by
    cases c.key with
    | none => exact (Attempt.gives_pure _ _).mpr rfl
    | some k => cases k <;> exact (Attempt.gives_pure _ _).mpr rfl
  rw [Option.map_map, Option.map_map] at length
  rw [Option.map_bind, Option.map_bind] at scale
  simp only [SqlSchema.Column.ofTree, Attempt.gives_bind, Attempt.gives_pure]
  exact ⟨_, default, _, length, _, scale, _, key, rfl⟩

end Column
end SqlSchema.Written

namespace SqlSchema.Reader.Rule
open Text Written

variable {rest : List Char}

theorem onward_flag (word : String) {words : List String} (given : Bool) (onward : Onward words rest) :
    Onward (word :: words) (flag given word ++ rest) := by
  cases given with
  | false => exact onward.mono fun _ member => List.mem_cons_of_mem _ member
  | true =>
    rw [flag, if_pos rfl, spaced_cons]
    exact .word (List.mem_cons_self ..) _

theorem takes_flag {word : String} (given : Bool) (spoken : Spoken word) (parted : Parted rest)
    (refused : (keyword word).Refuses rest) :
    ∃ found : Option Unit,
      found.isSome = given ∧ (optional (keyword word)).Takes (flag given word ++ rest) found rest := by
  cases given with
  | false => exact ⟨none, rfl, refused.optional⟩
  | true =>
    refine ⟨some (), rfl, Takes.optional ?_⟩
    exact takes_keywords (List.cons_ne_nil _ _) (List.forall_mem_singleton.mpr spoken) parted.not_touching

/-! Clauses. -/

theorem onward_clauses (cs : List Clause) (closed : Closed rest) :
    Onward traitWords (cs.flatMap Clause.chars ++ rest) := by
  rw [← Clause.flatMap_trait]
  exact onward_traits _ closed

/-- Clauses in any order are read one after the other, as long as none stands behind a key. -/
theorem repeats_clauses (d : Dialect) (cs : List Clause) (last : cs.Pairwise fun c _ => ∀ k, c ≠ .key k)
    (closed : Closed rest) :
    Repeats (columnAttribute d) (cs.flatMap Clause.chars ++ rest) (cs.map Clause.tree) rest := by
  have unfused : Unfused (cs.map Clause.trait) := by
    rw [Unfused, List.isChain_map]
    refine last.isChain.imp fun c _ alone both => ?_
    cases c with
    | key k => exact alone k rfl
    | _ => exact absurd both.1 nofun
  have same : (cs.map Clause.trait).map Trait.tree = cs.map Clause.tree := by
    rw [List.map_map]
    exact List.map_congr_left fun c _ => c.tree_trait
  rw [← Clause.flatMap_trait, ← same]
  exact repeats_traits d _ unfused closed

/-! Types. -/

theorem takes_size (s : Size) :
    size.Takes (s.chars ++ rest) (s.length.literal, s.scale.map Numeral.literal) rest := by
  unfold size
  rw [Size.chars, List.cons_append]
  apply takes_parenthesized
  rw [List.append_assoc, List.append_assoc]
  cases s.scale with
  | none =>
    have bare := takes_integer s.length (parted_cons ')' rest (by decide))
    have ended : (do comma; integer : Rule Tree.Literal).Refuses (')' :: rest) :=
      (refuses_mark (by decide) (by decide)).bind
    exact bare.bind (ended.optional.bind (takes_pure _ _))
  | some scale =>
    have first := takes_integer s.length (parted_cons ',' (scale.chars ++ ')' :: rest) (by decide))
    have second := takes_integer scale (parted_cons ')' rest (by decide))
    have both : (do comma; integer : Rule Tree.Literal).Takes (',' :: (scale.chars ++ ')' :: rest)) scale.literal
        (')' :: rest) := Takes.bind (takes_mark (by decide) (by decide)) second
    change Takes _ (s.length.chars ++ ',' :: (scale.chars ++ ')' :: rest)) _ _
    exact first.bind (both.optional.bind (takes_pure _ _))

/-- The words that follow the first one in the name of a long type. -/
def laterTypeWords : List String := ["precision", "varying", "with", "without"]

theorem refuses_longType (w : Word) (parted : Parted rest) (foreign : Foreign laterTypeWords rest)
    (words : List String) (member : words ∈ longTypes) : (longType words).Refuses (w.text.toList ++ rest) := by
  have shape : ∀ words ∈ longTypes, ∃ first second more, words = first :: second :: more ∧
      second ∈ laterTypeWords ∧ ∀ c ∈ separators, c ∉ upper first.toList := by
    intro words member
    simp only [longTypes, List.mem_cons, List.not_mem_nil, or_false] at member
    rcases member with rfl | rfl | rfl | rfl | rfl | rfl | rfl <;>
      exact ⟨_, _, _, rfl, by decide, by decide⟩
  obtain ⟨first, second, more, rfl, later, letters⟩ := shape words member
  rcases takes_or_refuses_keyword first w parted letters with taken | refused
  · exact (refuses_keywords_later _ taken (foreign second later)).bind
  · exact (refuses_keywords _ refused).bind

theorem takes_typeName (w : Word) (parted : Parted rest) (foreign : Foreign laterTypeWords rest) :
    typeName.Takes (w.text.toList ++ rest) w.text.toLower rest := by
  unfold typeName
  refine takes_choice_append (fun r member => ?_) (Takes.choice _ ((takes_word w parted).bind (takes_pure _ _)))
  obtain ⟨words, among, rfl⟩ := List.mem_map.mp member
  exact refuses_longType w parted foreign words among

/-- The words that may follow the size of a type. -/
def columnWords : List String := "UNSIGNED" :: "ZEROFILL" :: traitWords

theorem spoken_columnWords : ∀ word ∈ columnWords, Spoken word := by decide

/-- What follows the word of a type. -/
def withSize (s : Option Size) (rest : List Char) : List Char := (s.map Size.chars).getD [] ++ rest

theorem parted_sized (s : Option Size) (onward : Onward columnWords rest) : Parted (withSize s rest) := by
  cases s with
  | none => exact onward.parted
  | some s => exact parted_cons '(' _ (by decide)

theorem foreign_sized (s : Option Size) (onward : Onward columnWords rest) :
    Foreign laterTypeWords (withSize s rest) := by
  cases s with
  | none => exact onward.foreign spoken_columnWords (by decide) (by decide)
  | some s => exact foreign_of_char (by decide) (by decide)

theorem refuses_members (d : Dialect) (s : Option Size) (onward : Onward columnWords rest) :
    (parenthesized (listOf comma (string d))).Refuses (withSize s rest) := by
  cases s with
  | none => exact (onward.refuses_mark spoken_columnWords (by decide) (by decide)).bind
  | some s =>
    obtain ⟨first, more, split, seen⟩ : ∃ first more, s.length.chars = first :: more ∧ Cursor.isGap first = false :=
      s.length.figures.seen.split
    have bare : first ≠ '\x27' ∧ first ≠ '\x22' := by
      have inside : first ∈ s.length.chars := split ▸ List.mem_cons_self ..
      have among := s.length.figures.mem_chars first inside
      constructor
      · rintro rfl
        exact absurd among (by decide)
      · rintro rfl
        exact absurd among (by decide)
    have inside : (listOf comma (string d)).Refuses
        (s.length.chars ++ ((s.scale.map fun n => ',' :: n.chars).getD [] ++ [')']) ++ rest) := by
      rw [split, List.cons_append, List.cons_append]
      exact (refuses_string d seen bare).bind
    exact (takes_mark (by decide) (by decide)).refuses inside.bind

theorem refuses_memberType (d : Dialect) (w : Word) (parted : Parted rest)
    (memberless : (parenthesized (listOf comma (string d))).Refuses rest) :
    (memberType d).Refuses (w.text.toList ++ rest) := by
  have letters : ∀ key ∈ ["ENUM", "SET"], ∀ c ∈ separators, c ∉ upper key.toList := by decide
  rcases takes_or_refuses_keyword "ENUM" w parted (letters _ (by simp)) with enum | other
  · have kind : (constant "enum" ["ENUM"]).Takes (w.text.toList ++ rest) "enum" rest := Takes.bind enum (takes_pure _ _)
    exact Takes.refuses (Takes.choice _ kind) memberless.bind
  · rcases takes_or_refuses_keyword "SET" w parted (letters _ (by simp)) with set | neither
    · have kind : (constant "set" ["SET"]).Takes (w.text.toList ++ rest) "set" rest := Takes.bind set (takes_pure _ _)
      exact Takes.refuses (Refuses.choice other.bind (Takes.choice _ kind)) memberless.bind
    · refine Refuses.bind (refuses_choice _ _ fun r member => ?_)
      rcases List.mem_pair.mp member with rfl | rfl
      · exact other.bind
      · exact neither.bind

theorem takes_columnType (d : Dialect) (w : Word) (s : Option Size) (onward : Onward columnWords rest) :
    (columnType d).Takes (w.text.toList ++ withSize s rest)
      { name := w.text.toLower, length := s.map (·.length.literal)
        scale := s.bind fun s => s.scale.map Numeral.literal } rest := by
  have name := takes_typeName w (parted_sized s onward) (foreign_sized s onward)
  refine (refuses_memberType d w (parted_sized s onward) (refuses_members d s onward)).choice (Takes.choice _ ?_)
  cases s with
  | none =>
    have bare : size.Refuses rest := (onward.refuses_mark spoken_columnWords (by decide) (by decide)).bind
    exact name.bind (bare.optional.bind (takes_pure _ _))
  | some s => exact name.bind ((takes_size s).optional.bind (takes_pure _ _))

/-! Columns. -/

theorem pairwise_clauses (c : Written.Column) : c.clauses.Pairwise fun a _ => ∀ k, a ≠ .key k := by
  unfold Column.clauses
  cases c.notNull <;> cases c.default <;> cases c.autoIncrement <;> cases c.key <;> simp

theorem apply_clauses (c : Written.Column) (type : Tree.ColumnType)
    (bare : type.notNull = false ∧ type.default = none ∧ type.autoIncrement = false ∧ type.keyOption = .none) :
    (c.clauses.map Clause.tree).foldl Attribute.apply type =
      { type with
        notNull := c.notNull
        default := c.default.map Numeral.literal
        autoIncrement := c.autoIncrement
        keyOption := (c.key.map Key.tree).getD .none } := by
  obtain ⟨name, unsigned, zerofill, notNull, autoIncrement, default, length, scale, keyOption⟩ := type
  obtain ⟨rfl, rfl, rfl, rfl⟩ := bare
  unfold Column.clauses
  cases c.notNull <;> cases c.default <;> cases c.autoIncrement <;> cases c.key <;> rfl

/-- A name between quotes begins no index. -/
theorem foreign_nameMark (d : Dialect) : Foreign indexWords (nameMark d :: rest) := by
  have apart : ∀ d, ∀ word ∈ indexWords, Apart word [nameMark d] := by
    intro d
    cases d <;> decide
  exact foreign_of_char (quiet_nameMark d).1 (apart d)

theorem takes_free {cs : List Char} (foreign : Foreign indexWords cs) :
    (without indexWordsShape (choice indexWordsShape (indexWords.map keyword))).Takes cs () cs := by
  refine (refuses_choice _ _ fun r member => ?_).without _
  obtain ⟨word, among, rfl⟩ := List.mem_map.mp member
  exact foreign word among

/-- A column without signs and fillings, where the words that begin an index are foreign. -/
theorem takes_bareColumn {cs mid after : List Char} {name : String} {type : Tree.ColumnType}
    {attributes : List Attribute} (foreign : Foreign indexWords cs) (named : (identifier d).Takes cs name mid)
    (typed : (columnType d).Takes mid type after) (onward : Onward traitWords after)
    (said : Repeats (columnAttribute d) after attributes rest) :
    (column d).Takes cs
      ⟨name, attributes.foldl Attribute.apply { type with unsigned := false, zerofill := false }⟩ rest := by
  have signless := onward.refuses_keyword "UNSIGNED" (by decide) (by decide) (by decide)
  have fillless := onward.refuses_keyword "ZEROFILL" (by decide) (by decide) (by decide)
  exact (takes_free foreign).bind (named.bind (typed.bind (signless.optional.bind (fillless.optional.bind
    (said.many.bind (takes_pure _ _))))))

theorem takes_column (d : Dialect) (c : Written.Column) (closed : Closed rest) :
    (column d).Takes (c.chars d ++ rest) c.tree rest := by
  have clauses := onward_clauses c.clauses closed
  have filled := onward_flag "ZEROFILL" c.zerofill clauses
  have signed := onward_flag "UNSIGNED" c.unsigned filled
  have split : c.chars d ++ rest = c.name.quoted d ++ (' ' :: (c.type.text.toList ++
      withSize c.size (flag c.unsigned "UNSIGNED" ++ (flag c.zerofill "ZEROFILL" ++
        (c.clauses.flatMap Clause.chars ++ rest))))) := by
    simp [Column.chars, Column.tail, withSize]
  have free : (without indexWordsShape (choice indexWordsShape (indexWords.map keyword))).Takes
      (c.chars d ++ rest) () (c.chars d ++ rest) := takes_free (foreign_nameMark d)
  have name : (identifier d).Takes (c.chars d ++ rest) c.name.text (' ' :: (c.type.text.toList ++
      withSize c.size (flag c.unsigned "UNSIGNED" ++ (flag c.zerofill "ZEROFILL" ++
        (c.clauses.flatMap Clause.chars ++ rest))))) := by
    rw [split]
    refine takes_identifier d c.name ?_
    rw [List.head?_cons]
    cases d <;> decide
  have type := (takes_gap ' ' rfl).mpr (takes_columnType d c.type c.size signed)
  have signless := filled.refuses_keyword "UNSIGNED" (by decide) (by decide) (by decide)
  have fillless := clauses.refuses_keyword "ZEROFILL" (by decide) (by decide) (by decide)
  obtain ⟨unsigned, isUnsigned, one⟩ := takes_flag c.unsigned (by decide) filled.parted signless
  obtain ⟨zerofill, isFilled, two⟩ := takes_flag c.zerofill (by decide) clauses.parted fillless
  have attributes := (repeats_clauses d c.clauses (pairwise_clauses c) closed).many
  have tree : c.tree = ⟨c.name.text, (c.clauses.map Clause.tree).foldl Attribute.apply (
      { name := c.type.text.toLower, length := c.size.map (·.length.literal)
        scale := c.size.bind fun s => s.scale.map Numeral.literal
        unsigned := unsigned.isSome, zerofill := zerofill.isSome })⟩ := by
    rw [apply_clauses c _ ⟨rfl, rfl, rfl, rfl⟩, isUnsigned, isFilled]
    rfl
  rw [tree]
  exact free.bind (name.bind (type.bind (one.bind (two.bind (attributes.bind (takes_pure _ _))))))

end SqlSchema.Reader.Rule
