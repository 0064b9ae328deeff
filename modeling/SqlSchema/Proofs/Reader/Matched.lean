import SqlSchema.Proofs.Reader.MatchedLiteral

/-! Every rule for definitions matches itself, up to whole statements. -/
namespace SqlSchema.Reader.Rule
open SqlSchema.Tree Text Comparison

variable {k : Comparison} {α : Type}

/-! Alternatives that are words. -/

theorem matches_constants (name : Shape) (options : List (α × List String))
    (seamless : ∀ option ∈ options, option.2 ≠ [] ∧ ∀ word ∈ option.2, Seamless word) :
    Matches k 1 (id : α → α) (choice name (options.map fun option => constant option.1 option.2))
      (choice name (options.map fun option => constant option.1 option.2)) := by
  refine .choice_self fun r member => ?_
  obtain ⟨option, inside, rfl⟩ := List.mem_map.mp member
  exact .constant (seamless option inside).1 (seamless option inside).2

theorem matches_keywords (name : Shape) (phrases : List (List String))
    (seamless : ∀ words ∈ phrases, words ≠ [] ∧ ∀ word ∈ words, Seamless word) :
    Matches k 1 (id : Unit → Unit) (choice name (phrases.map keywords)) (choice name (phrases.map keywords)) := by
  refine .choice_self fun r member => ?_
  obtain ⟨words, inside, rfl⟩ := List.mem_map.mp member
  exact .takes_keywords words (seamless words inside).1 (seamless words inside).2

/-! Columns. -/

theorem matches_typeName : Matches k 0 (id : String → String) typeName typeName := by
  have seamless : ∀ words ∈ longTypes, words ≠ [] ∧ ∀ word ∈ words, Seamless word := by decide
  refine .choice_self fun r member => ?_
  rcases List.mem_append.mp member with long | short
  · obtain ⟨words, inside, rfl⟩ := List.mem_map.mp long
    exact (Matches.constant (seamless words inside).1 (seamless words inside).2).loose
  · obtain rfl := List.mem_singleton.mp short
    exact matches_word.map fun _ _ same => toLower_of_text same

theorem matches_memberType : Matches k 0 k.columnType (memberType k.first) (memberType k.second) := by
  refine (matches_constants (.choice [.keyword "ENUM", .keyword "SET"]) [("enum", ["ENUM"]), ("set", ["SET"])]
    (by decide)).loose.bind fun name other front => ?_
  obtain rfl : name = other := front
  refine (Matches.parenthesized (.listOf .comma matches_string)).map fun members others same => ?_
  simp only [Comparison.columnType, same]

theorem matches_size :
    Matches k 0 (fun s => (k.literal s.1, s.2.map k.literal)) size size := by
  refine .parenthesized (matches_integer.bind fun length other front => ?_)
  refine (Matches.optional (Matches.comma.loose.bind fun _ _ _ => matches_integer)).map fun scale finer same => ?_
  rw [front, same]

theorem matches_sizedType : Matches k 0 k.columnType sizedType sizedType := by
  refine matches_typeName.bind fun name other front => ?_
  obtain rfl : name = other := front
  refine (Matches.optional matches_size).map fun size finer same => ?_
  cases size with
  | none =>
    cases finer with
    | none => rfl
    | some _ => contradiction
  | some size =>
    cases finer with
    | none => contradiction
    | some finer =>
      obtain ⟨length, scale⟩ := Prod.mk.inj (Option.some.inj same)
      simp only [Comparison.columnType, Option.map_some, Option.bind_some, length, scale]

theorem matches_columnType : Matches k 0 k.columnType (columnType k.first) (columnType k.second) :=
  .choice (.cons matches_memberType (.cons matches_sizedType .nil))

/-- Two colons are special to one dialect. -/
theorem matches_doubleColon : Matches k 0 (id : Unit → Unit) doubleColon doubleColon := by
  have colon : Visible (· == ':') := visible_beq _ (by decide) (by decide)
  have cuts (k : Comparison) : Cuts k (id : Unit → Unit)
      (fun cs => if [':', ':'].isPrefixOf cs then some ((), 2) else none)
      (fun cs => if [':', ':'].isPrefixOf cs then some ((), 2) else none) := by
    intro cs ds u n similar found
    dsimp only at found ⊢
    split at found
    next begins =>
      cases found
      obtain ⟨rest, rfl⟩ := List.isPrefixOf_iff_prefix.mp begins
      obtain ⟨d, more, rfl, fixed, first, later⟩ := similar.uncons colon rfl
      obtain rfl := eq_of_beq fixed
      obtain ⟨d, more, rfl, fixed, second, after⟩ := later.uncons colon rfl
      obtain rfl := eq_of_beq fixed
      exact ⟨(), if_pos (by simp), rfl, .cons first (.cons second (.zero after))⟩
    next => contradiction
  exact .recognised (cuts k) (cuts k.swap)

theorem fails_doubleColon (different : k.first ≠ k.second) {c c' : Cursor} (alike : Cursor.Alike k c c') :
    doubleColon.Fails c := by
  rw [fails_iff]
  intro u after found
  obtain ⟨n, here, _⟩ := (reads_recognised ..).mp found
  split at here
  next begins =>
    obtain ⟨rest, split⟩ := List.isPrefixOf_iff_prefix.mp begins
    have similar := alike.rest
    rw [← split] at similar
    generalize c'.skipGap.rest = ds at similar
    cases similar with
    | cons _ usual _ _ => exact absurd (by decide) (usual.2 different)
    | gap first _ _ => exact absurd first (by decide)
  next => contradiction

/-- Something that is missing everywhere may also be left out of a rule. -/
theorem Matches.skip {β : Type} {least : Nat} {σ : Type} {see : α → σ} {r r' : Rule α} {last : Rule β}
    (matched : Matches k least see r r') (never : ∀ c c', Cursor.Alike k c c' → last.Fails c') :
    Matches k least see r (do
      let a ← r'
      let _ ← Rule.optional last
      return a) := by
  intro c c' alike
  cases matched c c' alike with
  | neither first second => exact .neither first ((fails_bind ..).mpr (.inl second))
  | @both a b after behind first second same ends here there =>
    refine .both first ((reads_bind ..).mpr ⟨b, behind, second, (reads_bind ..).mpr ⟨none, last.origin behind, ?_,
      (reads_pure ..).mpr ⟨rfl, rfl⟩⟩⟩) same ?_ here ?_
    · exact (reads_optional ..).mpr (.inr ⟨rfl, never after behind ends, rfl⟩)
    · rw [Cursor.Alike, Cursor.skipGap_origin]
      exact ends
    · have := last.origin_le behind
      omega

theorem matches_defaultValue : Matches k 0 k.literal (defaultValue k.first) (defaultValue k.second) := by
  have values := matches_value (k := k)
  have never {k : Comparison} (different : k.first ≠ k.second) (c c' : Cursor) (alike : Cursor.Alike k c c') :
      (do
        doubleColon
        typeName : Rule String).Fails c := (fails_bind ..).mpr (.inl (fails_doubleColon different alike))
  cases first : k.first with
  | mysql =>
    cases second : k.second with
    | mysql => rwa [first, second] at values
    | postgres =>
      rw [first, second] at values
      refine values.skip fun c c' alike => never (k := k.swap) ?_ c' c alike.swap
      simp [Comparison.swap, first, second]
  | postgres =>
    rw [first] at values
    cases second : k.second with
    | mysql =>
      rw [second] at values
      refine Matches.swap (values.swap.skip fun c c' alike => never (k := k) ?_ c' c alike.swap)
      simp [first, second]
    | postgres =>
      rw [second] at values
      refine values.bind fun a b same => ?_
      exact (Matches.optional (matches_doubleColon.bind fun _ _ _ => matches_typeName)).bind fun _ _ _ => .pure same

theorem matches_attributed {σ : Type} {see : α → σ} (make : α → Attribute) (intro : List String) {r r' : Rule α}
    (some : intro ≠ []) (seamless : ∀ word ∈ intro, Seamless word) (matched : Matches k 0 see r r')
    (made : ∀ a b, see a = see b → k.attributed (make a) = k.attributed (make b)) :
    Matches k 1 k.attributed (attributed make intro r) (attributed make intro r') :=
  (Matches.takes_keywords intro some seamless).bind fun _ _ _ => matched.map made

theorem matches_columnAttribute :
    Matches k 1 k.attributed (columnAttribute k.first) (columnAttribute k.second) := by
  have fixed (a : Attribute) (words : List String) (some : words ≠ []) (seamless : ∀ word ∈ words, Seamless word) :
      Matches k 1 k.attributed (constant a words) (constant a words) := .constant some seamless
  have charset : Matches k 1 k.attributed columnAttribute.charset columnAttribute.charset := by
    refine (matches_keywords (.named "character set") [["CHARACTER", "SET"], ["CHARSET"]] (by decide)).bind
      fun _ _ _ => ?_
    exact matches_word.map fun a b same => by simp only [Comparison.attributed, same]
  have onUpdate : Matches k 1 k.attributed columnAttribute.onUpdate columnAttribute.onUpdate :=
    (Matches.takes_keywords ["ON", "UPDATE"] (by decide) (by decide)).bind fun _ _ _ =>
      matches_currentTimestamp.bind fun _ _ _ => .pure rfl
  have default := matches_attributed (k := k) .default ["DEFAULT"] (by decide) (by decide)
    matches_defaultValue fun a b same => by simp only [Comparison.attributed, same]
  have comment := matches_attributed (k := k) .comment ["COMMENT"] (by decide) (by decide)
    matches_stringLiteral fun a b same => by simp only [Comparison.attributed, same]
  have collate := matches_attributed (k := k) .collate ["COLLATE"] (by decide) (by decide)
    matches_word fun a b same => by simp only [Comparison.attributed, same]
  exact .choice (.cons (fixed _ _ (by decide) (by decide)) (.cons (fixed _ _ (by decide) (by decide)) (.cons default
    (.cons (fixed _ _ (by decide) (by decide)) (.cons (fixed _ _ (by decide) (by decide))
    (.cons (fixed _ _ (by decide) (by decide)) (.cons (fixed _ _ (by decide) (by decide))
    (.cons (fixed _ _ (by decide) (by decide)) (.cons (fixed _ _ (by decide) (by decide)) (.cons comment
    (.cons charset (.cons collate (.cons onUpdate .nil)))))))))))))

theorem matches_flag (word : String) (seamless : Seamless word) :
    Matches k 0 (Option.map (id : Unit → Unit)) (optional (keyword word)) (optional (keyword word)) :=
  (Matches.keyword word seamless).optional

theorem matches_column : Matches k 0 k.column (column k.first) (column k.second) := by
  refine (Matches.without (matches_keywords indexWordsShape (indexWords.map fun word => [word]) (by decide))).bind
    fun _ _ _ => ?_
  refine matches_identifier.bind fun name name' named => ?_
  refine matches_columnType.bind fun type type' typed => ?_
  refine (matches_flag "UNSIGNED" (by decide)).bind fun unsigned unsigned' first => ?_
  refine (matches_flag "ZEROFILL" (by decide)).bind fun zerofill zerofill' second => ?_
  refine (Matches.many matches_columnAttribute).bind fun all all' same => .pure ?_
  rw [Option.map_id, id, id] at first second
  have flagged : k.columnType { type with unsigned := unsigned.isSome, zerofill := zerofill.isSome } =
      k.columnType { type' with unsigned := unsigned'.isSome, zerofill := zerofill'.isSome } := by
    rw [first, second]
    have both := congrArg
      (fun t : ColumnType => { t with unsigned := unsigned'.isSome, zerofill := zerofill'.isSome }) typed
    exact both
  rw [Comparison.column, Comparison.column, named, columnType_foldl, columnType_foldl, flagged, same]

/-! Indexes. -/

theorem matches_usingMethod : Matches k 0 (id : Unit → Unit) usingMethod usingMethod :=
  (Matches.keyword "USING" (by decide)).bind fun _ _ _ => matches_word.bind fun _ _ _ => .pure rfl

theorem matches_indexName : Matches k 0 k.text (indexName k.first) (indexName k.second) :=
  (Matches.without (Matches.keyword "USING" (by decide))).bind fun _ _ _ => matches_identifier

theorem matches_direction : Matches k 0 (Option.map (id : Unit → Unit)) direction direction :=
  (matches_keywords _ [["ASC"], ["DESC"]] (by decide)).optional

theorem matches_indexColumns :
    Matches k 0 (List.map k.indexColumn) (indexColumns k.first) (indexColumns k.second) := by
  refine .parenthesized (.listOf .comma ?_)
  refine matches_identifier.bind fun column other first => ?_
  refine (Matches.optional (.parenthesized matches_integer)).bind fun length longer second => ?_
  refine matches_direction.bind fun _ _ _ => .pure ?_
  rw [Comparison.indexColumn, Comparison.indexColumn, first, second]

theorem matches_columnNames : Matches k 0 (List.map k.text) (columnNames k.first) (columnNames k.second) :=
  .parenthesized (.listOf .comma (matches_identifier.bind fun _ _ same =>
    matches_direction.bind fun _ _ _ => .pure same))

theorem matches_primaryKey : Matches k 0 (id : Unit → Unit) primaryKey primaryKey :=
  (Matches.takes_keywords ["PRIMARY", "KEY"] (by decide) (by decide)).loose

theorem matches_constraintName :
    Matches k 0 (Option.map k.text) (constraintName k.first) (constraintName k.second) := by
  refine (Matches.keyword "CONSTRAINT" (by decide)).bind fun _ _ _ => ?_
  have kinds := matches_keywords (k := k) (.named "constraint type") [["PRIMARY", "KEY"], ["UNIQUE"]] (by decide)
  exact .optional ((Matches.without kinds).bind fun _ _ _ => matches_identifier)

theorem matches_uniqueType : Matches k 0 (id : String → String) uniqueType uniqueType :=
  (matches_constants _
    [("unique key", ["UNIQUE", "KEY"]), ("unique index", ["UNIQUE", "INDEX"]), ("unique", ["UNIQUE"])]
    (by decide)).loose

theorem matches_keyWord : Matches k 0 (id : String → String) keyWord keyWord :=
  (matches_constants _ [("key", ["KEY"]), ("index", ["INDEX"])] (by decide)).loose

theorem matches_keyType : Matches k 0 (id : String → String) keyType keyType := by
  refine .choice (.cons ?_ (.cons ?_ (.cons ?_ .nil)))
  · refine (matches_constants _ [("spatial", ["SPATIAL"]), ("fulltext", ["FULLTEXT"])] (by decide)).loose.bind
      fun kind other first => ?_
    obtain rfl : kind = other := first
    refine (Matches.optional matches_keyWord).bind fun word other second => ?_
    rw [Option.map_id, id, id] at second
    subst second
    cases word with
    | none => exact .pure rfl
    | some word => exact .pure rfl
  · exact (Matches.constant (by decide) (by decide)).loose
  · exact (Matches.constant (by decide) (by decide)).loose

theorem matches_indexBody :
    Matches k 0 (fun body => (body.1.map k.text, body.2.map k.indexColumn)) (indexBody k.first)
      (indexBody k.second) := by
  refine (Matches.optional matches_indexName).bind fun name other first => ?_
  refine (Matches.optional matches_usingMethod).bind fun _ _ _ => ?_
  refine matches_indexColumns.bind fun columns others second => ?_
  refine (Matches.optional matches_usingMethod).bind fun _ _ _ => .pure ?_
  rw [first, second]

theorem text_givenName? {a b : Option String} (same : a.map k.text = b.map k.text) (other : String) :
    k.text ((givenName? a).getD other) = k.text ((givenName? b).getD other) :=
  text_getD (by rw [givenName?_map, givenName?_map, same]) other

theorem matches_primaryIndex : Matches k 0 k.index (primaryIndex k.first) (primaryIndex k.second) := by
  refine (Matches.optional matches_constraintName).bind fun constraint other first => ?_
  refine matches_primaryKey.bind fun _ _ _ => (Matches.optional matches_usingMethod).bind fun _ _ _ => ?_
  refine matches_indexColumns.bind fun columns others second => ?_
  refine (Matches.optional matches_usingMethod).bind fun _ _ _ => .pure ?_
  have named : constraint.join.map k.text = other.join.map k.text := by
    rw [← Option.join_map_eq_map_join, first, Option.join_map_eq_map_join]
  simp only [Comparison.index, second, text_givenName? named]

theorem matches_uniqueIndex : Matches k 0 k.index (uniqueIndex k.first) (uniqueIndex k.second) := by
  refine (Matches.optional matches_constraintName).bind fun constraint other first => ?_
  refine matches_uniqueType.bind fun type type' second => ?_
  obtain rfl : type = type' := second
  refine matches_indexBody.bind fun body body' third => ?_
  obtain ⟨name, columns⟩ := body
  obtain ⟨name', columns'⟩ := body'
  obtain ⟨names, all⟩ := Prod.mk.inj third
  refine .pure ?_
  have constrained : constraint.join.map k.text = other.join.map k.text := by
    rw [← Option.join_map_eq_map_join, first, Option.join_map_eq_map_join]
  have either (a b : Option String) : (a <|> b).map k.text = (a.map k.text <|> b.map k.text) := by
    cases a <;> rfl
  have named : k.text ((givenName? name <|> givenName? constraint.join).getD "") =
      k.text ((givenName? name' <|> givenName? other.join).getD "") := by
    refine text_getD ?_ ""
    rw [either, either, givenName?_map, givenName?_map, givenName?_map, givenName?_map, names, constrained]
  simp only [Comparison.index, all, named]

theorem matches_plainIndex : Matches k 0 k.index (plainIndex k.first) (plainIndex k.second) := by
  refine matches_keyType.bind fun type type' first => ?_
  obtain rfl : type = type' := first
  refine matches_indexBody.bind fun body body' second => ?_
  obtain ⟨name, columns⟩ := body
  obtain ⟨name', columns'⟩ := body'
  obtain ⟨names, all⟩ := Prod.mk.inj second
  exact .pure (by simp only [Comparison.index, all, text_givenName? names])

theorem matches_index : Matches k 0 k.index (index k.first) (index k.second) :=
  .choice (.cons matches_primaryIndex (.cons matches_uniqueIndex (.cons matches_plainIndex .nil)))

/-! Statements. -/

/-- All that is left looks the same up to its first gap, if anything is left. -/
theorem matches_rest : Matches k 0 (fun text => upper (firstWord text.toList)) rest rest := by
  have visible : Visible (!isBlank ·) := visible_of_ascii (by decide)
  have first (c : Char) (cs : List Char) (seen : isBlank c = false) :
      firstWord (c :: cs) = (c :: cs).takeWhile (!isBlank ·) := by
    rw [firstWord, trimLeft, List.dropWhile_cons_of_neg (by simp [seen])]
  refine .of_either fun k c c' after text alike found => ?_
  obtain ⟨n, here, rfl⟩ := (reads_recognised ..).mp found
  split at here
  next d rest split =>
    split at here
    · contradiction
    next seen =>
      cases here
      rw [Bool.not_eq_true] at seen
      have similar := alike.rest
      rw [split] at similar
      obtain ⟨d', rest', other, shown, _, _⟩ := similar.uncons visible (by simpa using seen)
      rw [Bool.not_eq_true'] at shown
      obtain ⟨size, step⟩ := similar.takeWhile visible
      refine ⟨String.ofList (d' :: rest'), c'.skipGap.advance (d' :: rest').length, (reads_recognised ..).mpr
        ⟨_, ?_, rfl⟩, ?_, ?_, ?_⟩
      · rw [other]
        exact if_neg (by simp [shown])
      · have taken := step.taken
        rw [other] at taken size
        rw [← List.prefix_iff_eq_take.mp (List.takeWhile_prefix _), size,
          ← List.prefix_iff_eq_take.mp (List.takeWhile_prefix _)] at taken
        rw [String.toList_ofList, String.toList_ofList, split, first _ _ seen, first _ _ shown]
        exact upper_of_caseless k.keeps taken
      · refine Cursor.Close.alike ⟨?_, ?_, alike.first.advance _, alike.second.advance _⟩
        · simp only [Cursor.advance, split, other, List.drop_length]
          exact .nil
        · intro more
          simp [Cursor.advance, split] at more
      · simp [Cursor.advance, split]
  next => contradiction

theorem matches_item : Matches k 0 k.item (item k.first) (item k.second) := by
  refine .choice (.cons ?_ (.cons ?_ .nil))
  · exact matches_index.map fun a b same => congrArg Item.index same
  · exact matches_column.map fun a b same => congrArg Item.column same

theorem matches_createTable : Matches k 0 k.statement (createTable k.first) (createTable k.second) := by
  refine (Matches.keyword "CREATE" (by decide)).bind fun _ _ _ => ?_
  refine (matches_flag "TEMPORARY" (by decide)).bind fun _ _ _ => ?_
  refine (Matches.keyword "TABLE" (by decide)).bind fun _ _ _ => ?_
  refine (Matches.takes_keywords ["IF", "NOT", "EXISTS"] (by decide) (by decide)).optional.bind fun _ _ _ => ?_
  refine matches_table.bind fun name other first => ?_
  refine (Matches.parenthesized (.listOf .comma matches_item)).bind fun items others second => ?_
  refine matches_rest.optional.bind fun _ _ _ => .pure ?_
  simp only [Comparison.statement, Comparison.body, Option.map_some, first, filterMap_column?, filterMap_index?, second]

theorem matches_createIndex : Matches k 0 k.statement (createIndex k.first) (createIndex k.second) := by
  refine (Matches.keyword "CREATE" (by decide)).bind fun _ _ _ => ?_
  refine (matches_flag "UNIQUE" (by decide)).bind fun unique unique' first => ?_
  refine (Matches.keyword "INDEX" (by decide)).bind fun _ _ _ => ?_
  refine (matches_flag "CONCURRENTLY" (by decide)).bind fun _ _ _ => ?_
  refine (Matches.takes_keywords ["IF", "NOT", "EXISTS"] (by decide) (by decide)).optional.bind fun _ _ _ => ?_
  refine matches_indexName.bind fun name name' second => (Matches.keyword "ON" (by decide)).bind fun _ _ _ => ?_
  refine matches_table.bind fun table table' third => matches_usingMethod.optional.bind fun _ _ _ => ?_
  refine matches_columnNames.bind fun columns columns' fourth => .pure ?_
  rw [Option.map_id, id, id] at first
  simp only [Comparison.statement, Comparison.spec, Option.map_some, first, second, third, fourth]

theorem matches_createOther : Matches k 0 k.statement createOther createOther := by
  refine (Matches.keyword "CREATE" (by decide)).bind fun _ _ _ => ?_
  refine (Matches.takes_keywords ["OR", "REPLACE"] (by decide) (by decide)).optional.bind fun _ _ _ => ?_
  have others := matches_keywords (k := k) createdShape
    (["TABLE", "TEMPORARY", "UNIQUE", "INDEX"].map fun word => [word]) (by decide)
  refine (Matches.without others).bind fun _ _ _ => matches_word.bind fun kind kind' same => ?_
  refine matches_rest.optional.bind fun _ _ _ => .pure ?_
  rw [toLower_of_text same]

theorem matches_addPrimaryKey : Matches k 0 k.alteration (addPrimaryKey k.first) (addPrimaryKey k.second) := by
  refine (Matches.keyword "ADD" (by decide)).bind fun _ _ _ => ?_
  refine Matches.bind (.optional (?_ : Matches k 0 k.text _ _)) fun name name' first => ?_
  · refine (Matches.keyword "CONSTRAINT" (by decide)).bind fun _ _ _ => ?_
    exact (Matches.without matches_primaryKey).bind fun _ _ _ => matches_identifier
  refine matches_primaryKey.bind fun _ _ _ => ?_
  refine matches_usingMethod.optional.bind fun _ _ _ => matches_columnNames.bind fun columns columns' second => ?_
  refine matches_usingMethod.optional.bind fun _ _ _ => Matches.endOfText.bind fun _ _ _ => .pure ?_
  simp only [Comparison.alteration, Comparison.added, Comparison.spec, Option.map_some, second, text_givenName? first]

theorem matches_addUniqueConstraint :
    Matches k 0 k.alteration (addUniqueConstraint k.first) (addUniqueConstraint k.second) := by
  refine (Matches.keyword "ADD" (by decide)).bind fun _ _ _ => ?_
  refine (Matches.keyword "CONSTRAINT" (by decide)).bind fun _ _ _ => ?_
  refine matches_identifier.bind fun name name' first => (Matches.keyword "UNIQUE" (by decide)).bind fun _ _ _ => ?_
  refine matches_keyWord.optional.bind fun _ _ _ => matches_usingMethod.optional.bind fun _ _ _ => ?_
  refine matches_columnNames.bind fun columns columns' second => matches_usingMethod.optional.bind fun _ _ _ => ?_
  refine Matches.endOfText.bind fun _ _ _ => .pure ?_
  simp only [Comparison.alteration, Comparison.added, Comparison.spec, Option.map_some, first, second]

theorem matches_addIndex : Matches k 0 k.alteration (addIndex k.first) (addIndex k.second) := by
  refine (Matches.keyword "ADD" (by decide)).bind fun _ _ _ => ?_
  refine Matches.bind (?_ : Matches k 0 (id : Bool → Bool) _ _) fun unique unique' first => ?_
  · refine .choice (.cons ?_ (.cons ?_ .nil))
    · refine (Matches.keyword "UNIQUE" (by decide)).bind fun _ _ _ => ?_
      exact matches_keyWord.optional.bind fun _ _ _ => .pure rfl
    · exact matches_keyWord.bind fun _ _ _ => .pure rfl
  refine matches_indexName.optional.bind fun name name' second => ?_
  refine matches_usingMethod.optional.bind fun _ _ _ => matches_columnNames.bind fun columns columns' third => ?_
  refine matches_usingMethod.optional.bind fun _ _ _ => Matches.endOfText.bind fun _ _ _ => .pure ?_
  obtain rfl : unique = unique' := first
  simp only [Comparison.alteration, Comparison.added, Comparison.spec, Option.map_some, third, text_getD second]

theorem matches_addIndexStart :
    Matches k 0 (id : Unit → Unit) (addIndexStart k.first) (addIndexStart k.second) := by
  refine (Matches.keyword "ADD" (by decide)).bind fun _ _ _ => ?_
  refine .choice (.cons (.keyword _ (by decide)) (.cons (.keyword _ (by decide)) (.cons (.keyword _ (by decide)) (.cons
    matches_primaryKey (.cons ?_ .nil)))))
  exact matches_constraintName.bind fun _ _ _ =>
    (matches_keywords _ [["PRIMARY", "KEY"], ["UNIQUE"]] (by decide)).loose

theorem matches_alterOther : Matches k 0 k.alteration (alterOther k.first) (alterOther k.second) := by
  refine (Matches.without matches_addIndexStart).bind fun _ _ _ => matches_rest.bind fun text other same => .pure ?_
  rw [same]

theorem matches_alterTable : Matches k 0 k.statement (alterTable k.first) (alterTable k.second) := by
  refine (Matches.keyword "ALTER" (by decide)).bind fun _ _ _ => ?_
  refine (Matches.keyword "TABLE" (by decide)).bind fun _ _ _ => ?_
  refine (matches_flag "ONLY" (by decide)).bind fun _ _ _ => matches_table.bind fun table table' first => ?_
  refine Matches.bind (?_ : Matches k 0 k.alteration _ _) fun done done' second => ?_
  · exact .choice (.cons matches_addPrimaryKey (.cons matches_addUniqueConstraint (.cons matches_addIndex
      (.cons matches_alterOther .nil))))
  obtain ⟨action, added⟩ := done
  obtain ⟨action', added'⟩ := done'
  obtain ⟨rfl, same⟩ := Prod.mk.inj second
  refine .pure ?_
  cases added with
  | none =>
    cases added' with
    | none => simp only [Comparison.statement, Option.map_some, first]
    | some _ => contradiction
  | some added =>
    cases added' with
    | none => contradiction
    | some added' =>
      obtain ⟨spec, columns⟩ := Prod.mk.inj (Option.some.inj same)
      simp only [Comparison.statement, Option.map_some, Option.getD_some, first, spec, columns]

theorem matches_dropTable : Matches k 0 k.statement (dropTable k.first) (dropTable k.second) := by
  refine (Matches.keyword "DROP" (by decide)).bind fun _ _ _ => ?_
  refine (matches_flag "TEMPORARY" (by decide)).bind fun _ _ _ => ?_
  refine (Matches.keyword "TABLE" (by decide)).bind fun _ _ _ => ?_
  refine (Matches.takes_keywords ["IF", "EXISTS"] (by decide) (by decide)).optional.bind fun _ _ _ => ?_
  refine (Matches.listOf .comma matches_table).bind fun tables others same => ?_
  refine (matches_keywords _ [["CASCADE"], ["RESTRICT"]] (by decide)).optional.bind fun _ _ _ => .pure ?_
  simp only [Comparison.statement, ← List.head?_map, same]

theorem matches_dropOther : Matches k 0 k.statement dropOther dropOther := by
  refine (Matches.keyword "DROP" (by decide)).bind fun _ _ _ => matches_word.bind fun kind kind' same => ?_
  exact matches_rest.optional.bind fun _ _ _ => .pure (by rw [toLower_of_text same])

theorem matches_renameTable : Matches k 0 k.statement (renameTable k.first) (renameTable k.second) := by
  refine (Matches.keyword "RENAME" (by decide)).bind fun _ _ _ => ?_
  refine (Matches.keyword "TABLE" (by decide)).bind fun _ _ _ => ?_
  refine matches_table.bind fun table table' same => matches_rest.optional.bind fun _ _ _ => .pure ?_
  simp only [Comparison.statement, Option.map_some, same]

theorem matches_truncateTable : Matches k 0 k.statement (truncateTable k.first) (truncateTable k.second) := by
  refine (Matches.keyword "TRUNCATE" (by decide)).bind fun _ _ _ => ?_
  refine (matches_flag "TABLE" (by decide)).bind fun _ _ _ => ?_
  refine matches_table.bind fun table table' same => matches_rest.optional.bind fun _ _ _ => .pure ?_
  simp only [Comparison.statement, Option.map_some, same]

theorem matches_statement : Matches k 0 k.statement (statement k.first) (statement k.second) :=
  .choice (.cons matches_createTable (.cons matches_createIndex (.cons matches_createOther
    (.cons matches_alterTable (.cons matches_dropTable (.cons matches_dropOther (.cons matches_renameTable
      (.cons matches_truncateTable .nil))))))))

/-- Texts with the same characters between gaps have the same statement, in all that is seen of it, or none. -/
theorem readAll_statement {d e : Dialect} {cs ds : List Char} (similar : Similar (.exact d e) cs ds) :
    (∃ s s', (statement d).readAll cs = .ok s ∧ (statement e).readAll ds = .ok s' ∧
      (Comparison.exact d e).statement s = (Comparison.exact d e).statement s') ∨
      (∃ failure, (statement d).readAll cs = .error failure) ∧ ∃ failure, (statement e).readAll ds = .error failure :=
  (matches_statement (k := .exact d e)).readAll similar

end SqlSchema.Reader.Rule
