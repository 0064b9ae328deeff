import SqlSchema.Proofs.Attempt
import SqlSchema.Proofs.Reader.Seen
import SqlSchema.Proofs.Text.Lower
import SqlSchema.Schema.Decode

/-! Schemas in small letters. Names and raw texts lose their case, everything else stays. Trees that differ in the case
of letters are decoded to schemas that differ in it, or not at all. -/
namespace SqlSchema
open Text Attempt

/-! Numerals. -/

theorem takeSign_lower (cs : List Char) : takeSign (lower cs) = ((takeSign cs).1, lower (takeSign cs).2) := by
  rw [takeSign.eq_def (lower cs)]
  split
  next rest same =>
    obtain ⟨more, rfl, rfl⟩ := eq_append_of_lower ['-'] (by decide) same
    rfl
  next rest same =>
    obtain ⟨more, rfl, rfl⟩ := eq_append_of_lower ['+'] (by decide) same
    rfl
  next minus plus =>
    unfold takeSign
    split
    next rest => exact absurd rfl (minus (lower rest))
    next rest => exact absurd rfl (plus (lower rest))
    next => rfl

/-- Digits have no case. -/
theorem takeDigits_lower (cs : List Char) : takeDigits (lower cs) = ((takeDigits cs).1, lower (takeDigits cs).2) := by
  have caseless : Caseless Char.isDigit := caseless_of_ascii (by decide)
  have own : lower (cs.takeWhile (·.isDigit)) = cs.takeWhile (·.isDigit) := by
    refine (List.map_congr_left fun c member => ?_).trans (List.map_id' _)
    have digit : c.isDigit = true := List.mem_takeWhile_imp member
    refine toLower_eq_self ?_
    by_contra letter
    rw [Bool.not_eq_false] at letter
    have apart := forall_ascii (P := fun c => c.isAlpha = true → c.isDigit = false) (by decide) c
      (ascii_of_isAlpha c letter) letter
    rw [apart] at digit
    contradiction
  rw [takeDigits, takeDigits, takeWhile_lower caseless, dropWhile_lower caseless, own]

theorem isEmpty_lower (cs : List Char) : (lower cs).isEmpty = cs.isEmpty := by
  cases cs <;> rfl

theorem integerOf?_lower (cs : List Char) : integerOf? (lower cs) = integerOf? cs := by
  unfold integerOf?
  rw [takeSign_lower]
  dsimp only
  rw [takeDigits_lower]
  dsimp only
  rw [isEmpty_lower]

theorem numeralWidth_lower (cs : List Char) : numeralWidth (lower cs) = numeralWidth cs := by
  rw [numeralWidth, numeralWidth, takeSign_lower, length_lower]

namespace Decimal

theorem readExponent?_lower (cs : List Char) : readExponent? (lower cs) = readExponent? cs := by
  have caseless : Caseless fun c => decide (c = 'e' ∨ c = 'E') := caseless_of_ascii (by decide)
  cases cs with
  | nil => rfl
  | cons c rest =>
    have letter := caseless.lowered c
    rw [decide_eq_decide] at letter
    rw [lower_cons, readExponent?, readExponent?, takeSign_lower]
    simp only [letter, takeDigits_lower, isEmpty_lower]

/-- The numeral with the given digits around its point and the given exponent behind them. -/
def ofParts? (negative : Bool) (whole fraction after : List Char) : Option Decimal :=
  if whole.isEmpty && fraction.isEmpty then none
  else (readExponent? after).map fun exponent =>
    ⟨negative, digitsValue (whole ++ fraction), exponent - fraction.length⟩

theorem ofParts?_lower (negative : Bool) (whole fraction after : List Char) :
    ofParts? negative whole fraction (lower after) = ofParts? negative whole fraction after := by
  rw [ofParts?, ofParts?, readExponent?_lower]

theorem fraction_lower (after : List Char) :
    (match lower after with
      | '.' :: rest => takeDigits rest
      | rest => ([], rest)) =
    Prod.map id lower (match after with
      | '.' :: rest => takeDigits rest
      | rest => ([], rest)) := by
  split
  next rest same =>
    obtain ⟨more, rfl, rfl⟩ := eq_append_of_lower ['.'] (by decide) same
    exact takeDigits_lower more
  next other =>
    split
    next rest => exact absurd rfl (other (lower rest))
    next => rfl

theorem read?_lower (cs : List Char) : read? (lower cs) = read? cs := by
  unfold read?
  rw [takeSign_lower]
  dsimp only
  rw [takeDigits_lower]
  exact (congrArg (fun parts => ofParts? _ _ parts.1 parts.2) (fraction_lower _)).trans (ofParts?_lower ..)

end Decimal

/-! Literals. -/

def Value.lowered : Value → Value
  | .string raw => .string raw.toLower
  | .integer raw value => .integer raw.toLower value
  | .float raw value => .float raw.toLower value
  | .hexNumber raw => .hexNumber raw.toLower
  | .hexString raw => .hexString raw.toLower
  | .placeholder raw => .placeholder raw.toLower
  | .bit raw value => .bit raw.toLower value

theorem gives_decodeInteger {raw raw' : String} {n : Int} (same : raw.toLower = raw'.toLower)
    (given : (decodeInteger raw).Gives n) : (decodeInteger raw').Gives n := by
  rw [toLower_inj] at same
  have value : integerOf? raw'.toList = integerOf? raw.toList := by
    rw [← integerOf?_lower, ← same, integerOf?_lower]
  have width : numeralWidth raw'.toList = numeralWidth raw.toList := by
    rw [← numeralWidth_lower, ← same, numeralWidth_lower]
  unfold decodeInteger at given ⊢
  dsimp only at given ⊢
  rw [value, width]
  split at given
  · split at given
    · simp at given
    next short =>
      rw [if_neg short]
      split at given
      next fits => rwa [if_pos fits]
      next => simp at given
  · simp at given

theorem gives_decodeFloat {raw raw' : String} {x : Binary64} (same : raw.toLower = raw'.toLower)
    (given : (decodeFloat raw).Gives x) : (decodeFloat raw').Gives x := by
  rw [toLower_inj] at same
  have value : Decimal.read? raw'.toList = Decimal.read? raw.toList := by
    rw [← Decimal.read?_lower, ← same, Decimal.read?_lower]
  unfold decodeFloat at given ⊢
  rw [value]
  split at given
  next => exact given
  next => simp at given

/-- Literals that only differ in case have values that only differ in the case of their texts. -/
theorem gives_ofLiteral {kind : Tree.LiteralKind} {text text' : String} {v : Option Value}
    (same : text.toLower = text'.toLower) (given : (Value.ofLiteral ⟨kind, text⟩).Gives v) :
    ∃ v', (Value.ofLiteral ⟨kind, text'⟩).Gives v' ∧ v.map Value.lowered = v'.map Value.lowered := by
  cases kind with
  | integer =>
    obtain ⟨n, decoded, rfl⟩ : ∃ n, (decodeInteger text).Gives n ∧ some (.integer text n) = v := by
      simpa [Value.ofLiteral] using given
    refine ⟨some (.integer text' n), by simpa [Value.ofLiteral] using gives_decodeInteger same decoded, ?_⟩
    rw [Option.map_some, Option.map_some, Value.lowered, Value.lowered, same]
  | float =>
    obtain ⟨x, decoded, rfl⟩ : ∃ x, (decodeFloat text).Gives x ∧ some (.float text x) = v := by
      simpa [Value.ofLiteral] using given
    refine ⟨some (.float text' x), by simpa [Value.ofLiteral] using gives_decodeFloat same decoded, ?_⟩
    rw [Option.map_some, Option.map_some, Value.lowered, Value.lowered, same]
  | bit =>
    obtain rfl : some (.bit text (text = "1")) = v := by simpa [Value.ofLiteral] using given
    have one : text = "1" ↔ text' = "1" := by
      have digit (s : String) : s = "1" ↔ lower s.toList = ['1'] := by
        rw [← String.toList_inj]
        refine ⟨fun here => here ▸ rfl, fun small => ?_⟩
        exact eq_of_lower ['1'] (by decide) small
      rw [digit, digit, toLower_inj.mp same]
    refine ⟨some (.bit text' (text' = "1")), by simp [Value.ofLiteral], ?_⟩
    rw [Option.map_some, Option.map_some, Value.lowered, Value.lowered, same]
    simp only [one]
  | other code =>
    obtain rfl : none = v := by simpa [Value.ofLiteral] using given
    exact ⟨none, by simp [Value.ofLiteral], rfl⟩
  | string | hexNumber | hexString | placeholder =>
    obtain rfl : some _ = v := by simpa [Value.ofLiteral] using given
    refine ⟨some _, by simp only [Value.ofLiteral, gives_pure]; rfl, ?_⟩
    simp only [Option.map_some, Value.lowered, same]

/-! Definitions. -/

def Column.lowered (c : Column) : Column :=
  { c with name := c.name.toLower
           default := c.default.map Value.lowered
           length := c.length.map Value.lowered
           scale := c.scale.map Value.lowered
           members := c.members.map String.toLower }

def IndexColumn.lowered (c : IndexColumn) : IndexColumn := ⟨c.column.toLower, c.length.map Value.lowered⟩

def Index.lowered (i : Index) : Index :=
  { i with name := i.name.toLower, columns := i.columns.map IndexColumn.lowered }

def Table.lowered (t : Table) : Table :=
  { name := t.name.toLower, columns := t.columns.map Column.lowered, indexes := t.indexes.map Index.lowered }

def Definition.lowered : Definition → Definition
  | .createTable statement table => .createTable statement.toLower table.lowered
  | .createIndex statement tableName index => .createIndex statement.toLower tableName.toLower index.lowered
  | .addIndex statement tableName index => .addIndex statement.toLower tableName.toLower index.lowered
  | .addPrimaryKey statement tableName index => .addPrimaryKey statement.toLower tableName.toLower index.lowered

namespace Reader

/-- The case of letters is not seen. -/
def Comparison.letters (d : Dialect) : Comparison := ⟨d, d, Char.toLower, fun _ _ same => same⟩

theorem Comparison.text_letters {d : Dialect} : (letters d).text = String.toLower := by
  funext s
  rw [text, ← String.toList_inj, String.toList_ofList, toList_toLower]
  rfl

end Reader

section
variable {d : Dialect}

theorem gives_ofLiteral? {l l' : Option Tree.Literal} {v : Option Value}
    (same : l.map (Reader.Comparison.letters d).literal = l'.map (Reader.Comparison.letters d).literal)
    (given : (Value.ofLiteral? l).Gives v) :
    ∃ v', (Value.ofLiteral? l').Gives v' ∧ v.map Value.lowered = v'.map Value.lowered := by
  cases l with
  | none =>
    cases l' with
    | none => exact ⟨v, given, rfl⟩
    | some l' => contradiction
  | some l =>
    cases l' with
    | none => contradiction
    | some l' =>
      obtain ⟨kind, text⟩ := l
      obtain ⟨kind', text'⟩ := l'
      simp only [Option.map_some, Option.some.injEq, Reader.Comparison.literal, Tree.Literal.mk.injEq,
        Reader.Comparison.text_letters] at same
      obtain ⟨rfl, same⟩ := same
      exact gives_ofLiteral same given

/-- What holds of single results holds of lists of them. -/
theorem gives_mapM {ε α β γ δ : Type} {f : α → Attempt ε β} {see : α → γ} {show_ : β → δ}
    (each : ∀ a a' b, see a = see a' → (f a).Gives b → ∃ b', (f a').Gives b' ∧ show_ b = show_ b')
    {items items' : List α} {results : List β} (same : items.map see = items'.map see) (given : (items.mapM f).Gives results) :
    ∃ results', (items'.mapM f).Gives results' ∧ results.map show_ = results'.map show_ := by
  induction items generalizing items' results with
  | nil =>
    obtain rfl := List.map_eq_nil_iff.mp same.symm
    exact ⟨results, given, rfl⟩
  | cons a items ih =>
    cases items' with
    | nil => contradiction
    | cons a' items' =>
      obtain ⟨here, later⟩ := List.cons.inj same
      simp only [List.mapM_cons, gives_bind, gives_pure] at given ⊢
      obtain ⟨b, first, more, rest, rfl⟩ := given
      obtain ⟨b', first', alike⟩ := each a a' b here first
      obtain ⟨more', rest', alike'⟩ := ih later rest
      exact ⟨b' :: more', ⟨b', first', more', rest', rfl⟩, by rw [List.map_cons, List.map_cons, alike, alike']⟩

theorem gives_column (c c' : Tree.Column) (column : Column)
    (same : (Reader.Comparison.letters d).column c = (Reader.Comparison.letters d).column c')
    (given : (Column.ofTree c).Gives column) :
    ∃ column', (Column.ofTree c').Gives column' ∧ column.lowered = column'.lowered := by
  obtain ⟨name, type⟩ := c
  obtain ⟨name', type'⟩ := c'
  simp only [Reader.Comparison.column, Tree.Column.mk.injEq, Reader.Comparison.columnType, Tree.ColumnType.mk.injEq,
    Reader.Comparison.text_letters] at same
  obtain ⟨names, types, unsigned, _, notNull, increment, default, length, scale, key, _, _, _, members⟩ := same
  simp only [Column.ofTree, gives_bind, gives_pure] at given ⊢
  obtain ⟨v, first, w, second, x, third, option, fourth, rfl⟩ := given
  obtain ⟨v', first', defaults⟩ := gives_ofLiteral? default first
  obtain ⟨w', second', lengths⟩ := gives_ofLiteral? length second
  obtain ⟨x', third', scales⟩ := gives_ofLiteral? scale third
  refine ⟨_, ⟨v', first', w', second', x', third', option, key ▸ fourth, rfl⟩, ?_⟩
  simp only [Column.lowered, names, types, unsigned, notNull, increment, defaults, lengths, scales, members]

theorem gives_indexColumn (c c' : Tree.IndexColumn) (column : IndexColumn)
    (same : (Reader.Comparison.letters d).indexColumn c = (Reader.Comparison.letters d).indexColumn c')
    (given : (IndexColumn.ofTree c).Gives column) :
    ∃ column', (IndexColumn.ofTree c').Gives column' ∧ column.lowered = column'.lowered := by
  obtain ⟨name, length⟩ := c
  obtain ⟨name', length'⟩ := c'
  simp only [Reader.Comparison.indexColumn, Tree.IndexColumn.mk.injEq, Reader.Comparison.text_letters] at same
  simp only [IndexColumn.ofTree, gives_bind, gives_pure] at given ⊢
  obtain ⟨v, first, rfl⟩ := given
  obtain ⟨v', first', lengths⟩ := gives_ofLiteral? same.2 first
  exact ⟨_, ⟨v', first', rfl⟩, by rw [IndexColumn.lowered, IndexColumn.lowered, same.1, lengths]⟩

theorem gives_index (i i' : Tree.Index) (index : Index)
    (same : (Reader.Comparison.letters d).index i = (Reader.Comparison.letters d).index i')
    (given : (Index.ofTree i).Gives index) :
    ∃ index', (Index.ofTree i').Gives index' ∧ index.lowered = index'.lowered := by
  obtain ⟨type, name, primary, unique, columns⟩ := i
  obtain ⟨type', name', primary', unique', columns'⟩ := i'
  simp only [Reader.Comparison.index, Tree.Index.mk.injEq, Reader.Comparison.text_letters] at same
  obtain ⟨rfl, names, rfl, rfl, parts⟩ := same
  simp only [Index.ofTree, gives_bind, gives_pure] at given ⊢
  obtain ⟨v, first, rfl⟩ := given
  obtain ⟨v', first', lengths⟩ := gives_mapM gives_indexColumn parts first
  exact ⟨_, ⟨v', first', rfl⟩, by simp only [Index.lowered, names, lengths]⟩

theorem gives_table {name name' : String} {body body' : Tree.TableBody} {table : Table}
    (names : name.toLower = name'.toLower)
    (same : (Reader.Comparison.letters d).body body = (Reader.Comparison.letters d).body body')
    (given : (Table.ofTree name body).Gives table) :
    ∃ table', (Table.ofTree name' body').Gives table' ∧ table.lowered = table'.lowered := by
  simp only [Reader.Comparison.body, Tree.TableBody.mk.injEq] at same
  simp only [Table.ofTree, gives_bind, gives_pure] at given ⊢
  obtain ⟨columns, first, indexes, second, rfl⟩ := given
  obtain ⟨columns', first', alike⟩ := gives_mapM gives_column same.1 first
  obtain ⟨indexes', second', alike'⟩ := gives_mapM gives_index same.2.1 second
  exact ⟨_, ⟨columns', first', indexes', second', rfl⟩, by simp only [Table.lowered, names, alike, alike']⟩

end

end SqlSchema
