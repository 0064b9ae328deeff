import SqlSchema.Proofs.Statement.Untouched
import SqlSchema.Proofs.Written.Literal

/-! Tables with strings in them, read whole. Stripping leaves the statement as it is where nothing misleads in the
strings, or where nothing in the statement could be taken for a comment, and then each string is read as what it stands
for. -/
namespace SqlSchema.Written
open Text Reader Statement

variable {α : Type} {d : Dialect} (spell : α → Literal d)

/-! Stripping. -/

theorem isHashQuote_strings (first : α) (others : List α) (rest : List Char) (m : Char)
    (head : (joined 1 ((first :: others).map fun a => (spell a).chars) ++ rest).head? = some m) :
    isHashQuote m = true := by
  rw [List.map_cons, joined_cons] at head
  rw [← Option.some.inj head]
  exact (spell first).quote.isHashQuote_mark

/-- Strings with commas between them. -/
theorem legible_literals {first : α} {others : List α} {rest : List Char} {o : List (Sight d)}
    (steady : ∀ a ∈ first :: others, ∀ rest, (spell a).quote.Steady rest)
    (ended : ∀ c, rest.head? = some c → isHashQuote c = false) (legible : Legible d InLine rest o) :
    ∃ seen, Legible d InLine (joined 1 ((first :: others).map fun a => (spell a).chars) ++ rest) seen ∧
      seen.countP Sight.opens = o.countP Sight.opens := by
  induction others generalizing first with
  | nil =>
    have single : joined 1 ([first].map fun a => (spell a).chars) = (spell first).quote.chars := by
      simp [joined_cons, Literal.chars]
    refine ⟨.quote (spell first).quote :: o, ?_, List.countP_cons_of_neg (by simp [Sight.opens])⟩
    rw [single]
    exact .quote (spell first).quote (steady first (List.mem_cons_self ..) rest) ended legible
  | cons next others ih =>
    obtain ⟨here, later⟩ := List.forall_mem_cons.mp steady
    obtain ⟨seen, whole, same⟩ := ih later
    have split : joined 1 ((first :: next :: others).map fun a => (spell a).chars) ++ rest =
        (spell first).quote.chars ++
          ([',', ' '] ++ (joined 1 ((next :: others).map fun a => (spell a).chars) ++ rest)) := by
      simp [joined_cons, Literal.chars]
    have comma : Fitting InLine [',', ' '] ∧ ¬ Token.EndsInZone [',', ' '] := by decide +kernel
    have behind := whole.code comma.1 (isHashQuote_strings spell next others rest) fun _ => comma.2
    have none : (sights d [',', ' ']).countP Sight.opens = 0 := by cases d <;> decide
    have quoted := Legible.quote (spell first).quote (here _) (comma.1.isHashQuote_head ⟨_, rfl⟩) behind
    rw [← split] at quoted
    refine ⟨_, quoted, ?_⟩
    rw [List.countP_cons_of_neg (by simp [Sight.opens]), List.countP_append, none, same, Nat.zero_add]

/-- The code in front of the strings of a column, and behind them. -/
def Content.front : Content α → List Char
  | .default _ => "text".toList ++ ' ' :: ("DEFAULT".toList ++ [' '])
  | .members _ _ => "enum".toList ++ ['(']

def Content.back : Content α → List Char
  | .default _ => []
  | .members _ _ => [')']

theorem Content.split (write : α → List Char) (c : Content α) :
    ∃ first others, c.strings = first :: others ∧
      c.chars write = c.front ++ (joined 1 ((first :: others).map write) ++ c.back) := by
  cases c with
  | default value => exact ⟨value, [], rfl, by simp [chars, front, back, joined_cons]⟩
  | members first others => exact ⟨first, others, rfl, by simp [chars, front, back]⟩

def Content.fronts : List (List Char) :=
  ["text".toList ++ ' ' :: ("DEFAULT".toList ++ [' ']), "enum".toList ++ ['(']]

def Content.backs : List (List Char) := [[], [')']]

theorem Content.known (c : Content α) : c.front ∈ fronts ∧ c.back ∈ backs := by
  cases c <;> simp [front, back, fronts, backs]

/-- What may stand in front of a column. -/
def fronts : List (List Char) :=
  ["CREATE".toList ++ (spaced ["TABLE"] ++ [' ', 't', ' ', '(']), [',', ' '], [')', ',', ' ']]

theorem fitting_column (c : StringColumn α) {before : List Char} (known : before ∈ fronts) :
    Fitting InLine (before ++ c.name :: ' ' :: c.content.front) ∧
      ¬ Token.EndsInZone (before ++ c.name :: ' ' :: c.content.front) ∧
      (before ++ c.name :: ' ' :: c.content.front).count '(' ≤ before.count '(' + 1 := by
  have all : ∀ n < 128, (Char.ofNat n).isLower = true → ∀ before ∈ fronts,
      ∀ front ∈ Content.fronts, Fitting InLine (before ++ Char.ofNat n :: ' ' :: front) ∧
        ¬ Token.EndsInZone (before ++ Char.ofNat n :: ' ' :: front) ∧
        (before ++ Char.ofNat n :: ' ' :: front).count '(' ≤ before.count '(' + 1 := by decide +kernel
  have ascii := ascii_of_isAlpha c.name ((isAlpha_iff _).mpr (.inr c.small))
  have found := all c.name.toNat ascii
  rw [Char.ofNat_toNat] at found
  exact found c.small before known _ c.content.known.1

theorem legible_column (c : StringColumn α) (steady : ∀ a ∈ c.content.strings, ∀ rest, (spell a).quote.Steady rest)
    {before rest : List Char} {o : List (Sight d)} (known : before ∈ fronts)
    (ended : ∀ b, (c.content.back ++ rest).head? = some b → isHashQuote b = false)
    (legible : Legible d InLine (c.content.back ++ rest) o) :
    ∃ seen, Legible d InLine (before ++ (c.chars (fun a => (spell a).chars) ++ rest)) seen ∧
      seen.countP Sight.opens ≤ before.count '(' + 1 + o.countP Sight.opens := by
  obtain ⟨first, others, strings, split⟩ := c.content.split fun a => (spell a).chars
  obtain ⟨fitting, unzoned, few⟩ := fitting_column c known
  obtain ⟨seen, quoted, same⟩ := legible_literals spell (strings ▸ steady) ended legible
  have whole := quoted.code fitting (isHashQuote_strings spell first others _) fun _ => unzoned
  have text : before ++ (c.chars (fun a => (spell a).chars) ++ rest) = before ++ c.name :: ' ' :: c.content.front ++
      (joined 1 ((first :: others).map fun a => (spell a).chars) ++ (c.content.back ++ rest)) := by
    simp [StringColumn.chars, split]
  refine ⟨_, text ▸ whole, ?_⟩
  rw [List.countP_append, same]
  exact Nat.add_le_add_right ((countP_sights_le _).trans few) _

theorem fitting_back (c : Content α) :
    Fitting InLine (c.back ++ [')']) ∧ (c.back ++ [')']).count '(' = 0 ∧ c.back ++ [',', ' '] ∈ fronts ∧
      Fitting InLine (c.back ++ [',', ' ']) ∧ (c.back ++ [',', ' ']).count '(' = 0 := by
  have all : ∀ back ∈ Content.backs, Fitting InLine (back ++ [')']) ∧ (back ++ [')']).count '(' = 0 ∧
      back ++ [',', ' '] ∈ fronts ∧ Fitting InLine (back ++ [',', ' ']) ∧ (back ++ [',', ' ']).count '(' = 0 := by
    decide +kernel
  exact all c.back c.known.2

theorem legible_columns {columns : List (StringColumn α)} (filled : columns ≠ [])
    (steady : ∀ c ∈ columns, ∀ a ∈ c.content.strings, ∀ rest, (spell a).quote.Steady rest) {before : List Char}
    (known : before ∈ fronts) :
    ∃ seen, Legible d InLine
        (before ++ (joined 1 (columns.map (StringColumn.chars fun a => (spell a).chars)) ++ [')'])) seen ∧
      seen.countP Sight.opens ≤ before.count '(' + columns.length := by
  obtain ⟨first, others, rfl⟩ := List.exists_cons_of_ne_nil filled
  clear filled
  induction others generalizing first before with
  | nil =>
    obtain ⟨fitting, closed, _⟩ := fitting_back first.content
    have ending := (Legible.nil : Legible d InLine [] []).code fitting (by simp) (by simp)
    rw [List.append_nil, List.append_nil] at ending
    obtain ⟨seen, whole, few⟩ := legible_column spell first (steady first (List.mem_cons_self ..)) known
      (fitting.isHashQuote_head List.prefix_rfl) ending
    have single : joined 1 ([first].map (StringColumn.chars fun a => (spell a).chars)) =
        first.chars fun a => (spell a).chars := by simp [joined_cons]
    have none := countP_sights_le (d := d) (first.content.back ++ [')'])
    refine ⟨seen, by rwa [single], ?_⟩
    rw [List.length_singleton]
    omega
  | cons next others ih =>
    obtain ⟨here, later⟩ := List.forall_mem_cons.mp steady
    obtain ⟨_, _, joint, fitting, closed⟩ := fitting_back first.content
    obtain ⟨seen, behind, fewer⟩ := ih joint next later
    rw [List.append_assoc] at behind
    obtain ⟨all, whole, few⟩ := legible_column spell first here known
      (fitting.isHashQuote_head ⟨_, List.append_assoc ..⟩) behind
    have split : joined 1 ((first :: next :: others).map (StringColumn.chars fun a => (spell a).chars)) ++ [')'] =
        (first.chars fun a => (spell a).chars) ++
          ([',', ' '] ++ (joined 1 ((next :: others).map (StringColumn.chars fun a => (spell a).chars)) ++ [')'])) := by
      simp [joined_cons]
    refine ⟨all, by rwa [split], ?_⟩
    simp only [List.length_cons] at fewer ⊢
    omega

theorem stringTable_split (write : α → List Char) (columns : List (StringColumn α)) :
    stringTable write columns = "CREATE".toList ++ (spaced ["TABLE"] ++ [' ', 't', ' ', '(']) ++
      (joined 1 (columns.map (StringColumn.chars write)) ++ [')']) := by
  -- The equation of the definition would be found by spelling its first word out.
  delta stringTable
  simp

theorem getLast?_stringTable (write : α → List Char) (columns : List (StringColumn α)) :
    (stringTable write columns).getLast? = some ')' := by
  rw [stringTable_split, ← List.append_assoc, List.getLast?_concat]

theorem framed_stringTable (write : α → List Char) (columns : List (StringColumn α)) :
    Framed (stringTable write columns) :=
  framed_statement (by decide : "CREATE" ∈ Tree.schemaWords) ⟨_, rfl⟩ (getLast?_stringTable write columns)

/-- Nothing misleads in the strings, or no comment could open in the statement. -/
def Plain (columns : List (StringColumn α)) : Prop :=
  (∀ c ∈ columns, ∀ a ∈ c.content.strings, ∀ rest, (spell a).quote.Steady rest) ∨
    Bland (stringTable (fun a => (spell a).chars) columns)

variable {columns : List (StringColumn α)}

theorem strip_stringTable (filled : columns ≠ []) (few : columns.length < nestingLimit) (plain : Plain spell columns) :
    strip d (stringTable (fun a => (spell a).chars) columns) =
      .ok (stringTable (fun a => (spell a).chars) columns) := by
  have framed := framed_stringTable (fun a => (spell a).chars) columns
  rcases plain with steady | bland
  · obtain ⟨seen, legible, fewer⟩ := legible_columns spell filled steady (List.mem_cons_self ..)
    rw [← stringTable_split] at legible
    have one : ("CREATE".toList ++ (spaced ["TABLE"] ++ [' ', 't', ' ', '('])).count '(' = 1 := by decide +kernel
    exact legible.untouched (by omega) framed
  · exact bland.strip framed d

/-! Reading. -/

theorem mem_joined {c : Char} {gap : Nat} {items : List (List Char)} (visible : c ≠ ',' ∧ c ≠ ' ')
    (inside : c ∈ joined gap items) : ∃ item ∈ items, c ∈ item := by
  cases items with
  | nil => exact absurd inside List.not_mem_nil
  | cons first others =>
    rw [joined_cons] at inside
    simpa [visible] using inside

theorem untabbed_stringTable {write : α → List Char}
    (untabbed : ∀ c ∈ columns, ∀ a ∈ c.content.strings, '\t' ∉ write a) : '\t' ∉ stringTable write columns := by
  have visible : '\t' ≠ ',' ∧ '\t' ≠ ' ' := by decide
  have plain : '\t' ∉ "CREATE".toList ++ (spaced ["TABLE"] ++ [' ', 't', ' ', '(', ')']) := by decide +kernel
  intro inside
  have among : '\t' ∈ joined 1 (columns.map (StringColumn.chars write)) := by
    rw [stringTable_split] at inside
    simp only [List.mem_append, List.mem_cons, not_or] at inside plain
    simpa [plain] using inside
  obtain ⟨_, member, tab⟩ := mem_joined visible among
  obtain ⟨c, column, rfl⟩ := List.mem_map.mp member
  have named : '\t' ≠ c.name := by
    intro same
    exact absurd c.small (same ▸ by decide)
  obtain ⟨first, others, strings, split⟩ := c.content.split write
  have around : ∀ side ∈ Content.fronts ++ Content.backs, '\t' ∉ side := by decide +kernel
  have front := around _ (List.mem_append_left _ c.content.known.1)
  have back := around _ (List.mem_append_right _ c.content.known.2)
  have written : '\t' ∈ joined 1 ((first :: others).map write) := by
    rw [StringColumn.chars, split] at tab
    simpa [named, visible, front, back] using tab
  obtain ⟨_, string, tab⟩ := mem_joined visible written
  obtain ⟨a, known, rfl⟩ := List.mem_map.mp string
  exact untabbed c column a (strings ▸ known) tab

/-- The table is read with what its strings stand for. -/
theorem gives_stringTable (filled : columns ≠ []) (few : columns.length < nestingLimit) (plain : Plain spell columns)
    (untabbed : ∀ c ∈ columns, ∀ a ∈ c.content.strings, '\t' ∉ (spell a).chars) :
    (Definition.read d (String.ofList (stringTable (fun a => (spell a).chars) columns))).Gives
      (.createTable (String.ofList (stringTable (fun a => (spell a).chars) columns))
        (decodedTable (fun a => (spell a).text) columns)) := by
  have ended := getLast?_stringTable (fun a => (spell a).chars) columns
  refine gives_of_strip "CREATE" (strip_stringTable spell filled few plain) (untabbed_stringTable untabbed) (by decide)
    ⟨_, rfl⟩ ended (Rule.takes_stringTable spell filled) ?_
  have each := gives_mapM (StringColumn.tree fun a => (spell a).text) _ (StringColumn.gives_decoded _) columns
  simp only [SqlSchema.Definition.ofTree, if_true, Table.ofTree, List.mapM_nil, Attempt.gives_bind, Attempt.gives_pure]
  exact ⟨_, ⟨_, each, _, rfl, rfl⟩, rfl⟩

/-- The strings are read as the texts that are meant exactly if each of them stands for what is meant by it. -/
theorem gives_stringTable_iff (meaning : α → String) (filled : columns ≠ []) (few : columns.length < nestingLimit)
    (plain : Plain spell columns) (untabbed : ∀ c ∈ columns, ∀ a ∈ c.content.strings, '\t' ∉ (spell a).chars) :
    (Definition.read d (String.ofList (stringTable (fun a => (spell a).chars) columns))).Gives
        (.createTable (String.ofList (stringTable (fun a => (spell a).chars) columns)) (decodedTable meaning columns)) ↔
      ∀ c ∈ columns, ∀ a ∈ c.content.strings, (spell a).text = meaning a := by
  have gives := gives_stringTable spell filled few plain untabbed
  have same : decodedTable (fun a => (spell a).text) columns = decodedTable meaning columns ↔
      ∀ c ∈ columns, ∀ a ∈ c.content.strings, (spell a).text = meaning a := by
    simp only [decodedTable, SqlSchema.Table.mk.injEq, List.map_inj_left, StringColumn.decoded_inj, true_and, and_true]
  rw [← same]
  constructor
  · intro meant
    have equal := gives.unique meant
    injection equal
  · intro equal
    rwa [← equal]

end SqlSchema.Written
