import SqlSchema.Proofs.Reader.Passing

/-! What the rules for definitions pass over. Outside the lists of columns and the sizes of types there are neither
parentheses nor commas, so that every definition is kept together. -/
namespace SqlSchema.Reader
open Text

/-! Words and literals. -/

theorem flat_takeWhile (p : Char → Bool) (opening : p '(' = false) (closing : p ')' = false) (comma : p ',' = false)
    (cs : List Char) : Flat (cs.takeWhile p) := by
  intro c member
  have holds := List.mem_takeWhile_imp member
  refine ⟨?_, ?_, ?_⟩ <;> rintro rfl
  · rw [opening] at holds
    contradiction
  · rw [closing] at holds
    contradiction
  · rw [comma] at holds
    contradiction

theorem flat_take_takeWhile (p : Char → Bool) (opening : p '(' = false) (closing : p ')' = false)
    (comma : p ',' = false) (cs : List Char) : Flat (cs.take (cs.takeWhile p).length) := by
  rw [← List.prefix_iff_eq_take.mp (List.takeWhile_prefix p)]
  exact flat_takeWhile p opening closing comma cs

theorem flat_take_add {cs : List Char} {m n : Nat} (first : Flat (cs.take m)) (second : Flat ((cs.drop m).take n)) :
    Flat (cs.take (m + n)) := by
  rw [List.take_add]
  exact first.append second

theorem flat_cons {c : Char} {rest : List Char} (here : c ≠ '(' ∧ c ≠ ')' ∧ c ≠ ',') (later : Flat rest) :
    Flat (c :: rest) := List.forall_mem_cons.mpr ⟨here, later⟩

theorem flat_nil : Flat [] := List.forall_mem_nil _

theorem flat_signSize (cs : List Char) : Flat (cs.take (signSize cs)) := by
  unfold signSize
  split
  · exact flat_cons (by decide) (by simpa using flat_nil)
  · exact flat_cons (by decide) (by simpa using flat_nil)
  · exact flat_nil

theorem flat_digitCount (cs : List Char) : Flat (cs.take (digitCount cs)) :=
  flat_take_takeWhile isDigit (by decide) (by decide) (by decide) cs

theorem flat_integerSize {cs : List Char} {size : Nat} (found : integerSize? cs = some size) : Flat (cs.take size) := by
  unfold integerSize? at found
  dsimp only at found
  split at found
  · cases found
    exact flat_take_add (flat_signSize cs) (flat_digitCount _)
  · contradiction

theorem flat_exponentSize {cs : List Char} {size : Nat} (found : exponentSize? cs = some size) :
    Flat (cs.take size) := by
  unfold exponentSize? at found
  split at found
  next e rest =>
    split at found
    next letter =>
      dsimp only at found
      split at found
      · cases found
        have usual : e ≠ '(' ∧ e ≠ ')' ∧ e ≠ ',' := by rcases letter with rfl | rfl <;> decide
        have digits := flat_take_add (flat_signSize rest) (flat_digitCount _)
        rw [Nat.add_assoc, Nat.add_comm, List.take_succ_cons]
        exact flat_cons usual digits
      · contradiction
    next => contradiction
  next => contradiction

theorem flat_floatSize {cs : List Char} {size : Nat} (found : floatSize? cs = some size) : Flat (cs.take size) := by
  have whole := flat_take_add (flat_signSize cs) (flat_digitCount _)
  unfold floatSize? at found
  dsimp only at found
  split at found
  next rest behind =>
    split at found
    · contradiction
    · split at found
      · cases found
        have point :
            Flat ((cs.drop (signSize cs + digitCount (cs.drop (signSize cs)))).take (1 + digitCount rest)) := by
          rw [← List.drop_drop, behind, Nat.add_comm, List.take_succ_cons]
          exact flat_cons (by decide) (flat_digitCount rest)
        have mantissa := flat_take_add whole point
        rw [← Nat.add_assoc] at mantissa
        refine flat_take_add mantissa ?_
        generalize cs.drop (signSize cs + digitCount (cs.drop (signSize cs)) + 1 + digitCount rest) = behind
        cases power : exponentSize? behind with
        | none => exact flat_nil
        | some n => exact flat_exponentSize power
      · contradiction
  next rest _ =>
    split at found
    next power exponent =>
      split at found
      · cases found
        refine flat_take_add whole ?_
        rw [← List.drop_drop]
        exact flat_exponentSize exponent
      · contradiction
    next => contradiction

theorem flat_hexNumberSize {cs : List Char} {size : Nat} (found : hexNumberSize? cs = some size) :
    Flat (cs.take size) := by
  unfold hexNumberSize? at found
  split at found
  next x rest =>
    dsimp only at found
    split at found
    next hex =>
      cases found
      have usual : x ≠ '(' ∧ x ≠ ')' ∧ x ≠ ',' := by rcases hex.1 with rfl | rfl <;> decide
      rw [Nat.add_comm, List.take_succ_cons, List.take_succ_cons]
      exact flat_cons (by decide) (flat_cons usual (flat_take_takeWhile isHex (by decide) (by decide) (by decide) rest))
    next => contradiction
  next => contradiction

theorem usual_of_isWordStart {c : Char} (start : Rule.isWordStart c = true) : c ≠ '(' ∧ c ≠ ')' ∧ c ≠ ',' := by
  refine ⟨?_, ?_, ?_⟩ <;> rintro rfl <;> exact absurd start (by decide)

theorem flat_namedPlaceholder {cs : List Char} {size : Nat} (found : namedPlaceholder? cs = some size) :
    Flat (cs.take size) := by
  unfold namedPlaceholder? at found
  split at found
  next c rest =>
    split at found
    next start =>
      cases found
      rw [Nat.add_comm, List.take_succ_cons, List.take_succ_cons]
      exact flat_cons (by decide) (flat_cons (usual_of_isWordStart start)
        (flat_take_takeWhile isWord (by decide) (by decide +kernel) (by decide +kernel) rest))
    next => contradiction
  next => contradiction

theorem flat_numberedPlaceholder {cs : List Char} {size : Nat} (found : numberedPlaceholder? cs = some size) :
    Flat (cs.take size) := by
  unfold numberedPlaceholder? at found
  split at found
  next rest =>
    dsimp only at found
    split at found
    · cases found
      rw [Nat.add_comm, List.take_succ_cons]
      exact flat_cons (by decide) (flat_digitCount rest)
    · contradiction
  next => contradiction

theorem flat_placeholderSize {d : Dialect} {cs : List Char} {size : Nat} (found : placeholderSize? d cs = some size) :
    Flat (cs.take size) := by
  unfold placeholderSize? at found
  cases d with
  | postgres =>
    cases numbered : numberedPlaceholder? cs with
    | some n =>
      rw [numbered] at found
      cases found
      exact flat_numberedPlaceholder numbered
    | none =>
      rw [numbered] at found
      exact flat_namedPlaceholder found
  | mysql =>
    cases named : namedPlaceholder? cs with
    | some n =>
      rw [named] at found
      cases found
      exact flat_namedPlaceholder named
    | none =>
      have question : (if cs.head? = some '?' then some 1 else none) = some size := by rwa [named] at found
      simp only [Option.ite_none_right_eq_some, Option.some.injEq] at question
      obtain ⟨first, rfl⟩ := question
      obtain ⟨rest, rfl⟩ := List.head?_eq_some_iff.mp first
      exact flat_cons (by decide) (by simpa using flat_nil)

namespace Rule

theorem flat_wordOf (part : Char → Bool) (opening : part '(' = false) (closing : part ')' = false)
    (comma : part ',' = false) (name : Shape) : (recognised name (wordOf part)).Over Flat := by
  refine joins_flat.recognised name _ fun cs word size _ found => ?_
  unfold wordOf at found
  split at found
  next c rest _ =>
    split at found
    next start =>
      cases found
      rw [List.length_cons, List.take_succ_cons]
      exact flat_cons (usual_of_isWordStart start) (flat_take_takeWhile part opening closing comma rest)
    next => contradiction
  next => contradiction

theorem flat_word : word.Over Flat := flat_wordOf _ (by decide) (by decide) (by decide) _

theorem flat_identifier (d : Dialect) : (identifier d).Over Flat := by
  refine passes_choice _ _ (List.forall_mem_cons.mpr ⟨?_, List.forall_mem_singleton.mpr ?_⟩)
  · exact passes_quoted (by cases d <;> decide) _
  · exact flat_wordOf _ (by decide) (by decide) (by decide) _

theorem passes_string (d : Dialect) (P : String → List Char → Prop) : (string d).Passes P := by
  cases d with
  | mysql =>
    exact passes_choice _ _ (List.forall_mem_cons.mpr ⟨passes_quoted (by decide) _,
      List.forall_mem_singleton.mpr (passes_quoted (by decide) _)⟩)
  | postgres => exact passes_quoted (by decide) _

theorem flat_stringLiteral (d : Dialect) : (stringLiteral d).Over Flat :=
  joins_flat.bind (passes_string d _) fun _ => joins_flat.pure _

theorem flat_sized (kind : Tree.LiteralKind) (name : String) (size? : List Char → Option Nat)
    (known : ∀ cs size, size? cs = some size → Flat (cs.take size)) : (sized kind name size?).Over Flat := by
  refine joins_flat.recognised _ _ fun cs literal size _ found => ?_
  obtain ⟨n, here, same⟩ := Option.map_eq_some_iff.mp found
  cases same
  exact known cs size here

theorem flat_integer : integer.Over Flat := flat_sized _ _ _ fun _ _ => flat_integerSize

/-- Strings of digits need quotes. -/
theorem passes_lettered (kind : Tree.LiteralKind) (name : String) (letter : Char) (isPart : Char → Bool)
    (P : Tree.Literal → List Char → Prop) : (lettered kind name letter isPart).Passes P := by
  refine (passes_recognised (P := fun _ _ => False) _ _ fun cs literal size bare found => ?_).mono ?_
  · obtain ⟨_, here, _⟩ := Option.map_eq_some_iff.mp found
    unfold letterString? at here
    split at here
    · exact absurd (by decide) (bare '\x27' (by simp))
    · contradiction
  · intro _ _ holds
    obtain ⟨_, _, _, _, never⟩ := holds
    exact never.elim

theorem flat_literal (d : Dialect) : (literal d).Over Flat := by
  apply passes_choice
  simp only [List.forall_mem_cons]
  exact ⟨passes_lettered _ _ _ _ _, passes_lettered _ _ _ _ _, flat_sized _ _ _ fun _ _ => flat_hexNumberSize,
    flat_sized _ _ _ fun _ _ => flat_floatSize, flat_integer, flat_stringLiteral d,
    flat_sized _ _ _ fun _ _ => flat_placeholderSize, List.forall_mem_nil _⟩

theorem sealed_currentTimestamp (anywhere : Bool) : currentTimestamp.Over (Sealed anywhere) := by
  have joins := joins_sealed anywhere
  refine joins.bind ((flat_keyword _ (by decide)).sealed anywhere) fun _ => ?_
  exact joins.bind (joins.optional (((joins_sealed true).optional (flat_integer.sealed true)).parenthesized anywhere))
    fun _ => joins.pure ()

theorem sealed_value (d : Dialect) (anywhere : Bool) : (value d).Over (Sealed anywhere) := by
  have joins := joins_sealed anywhere
  have fixed (text : String) {r : Rule Unit} (across : r.Over (Sealed anywhere)) :
      (wordValue text r).Over (Sealed anywhere) := joins.bind across fun _ => joins.pure _
  have keyword (word : String) (plain : Flat (upper word.toList)) : (Rule.keyword word).Over (Sealed anywhere) :=
    (flat_keyword word plain).sealed anywhere
  apply passes_choice
  simp only [List.forall_mem_cons]
  exact ⟨(flat_literal d).sealed anywhere, fixed _ (keyword _ (by decide)),
    fixed _ (sealed_currentTimestamp anywhere), fixed _ (keyword _ (by decide)),
    fixed _ (keyword _ (by decide)), List.forall_mem_nil _⟩

/-! Types. -/

theorem flat_constant {α : Type} (value : α) (words : List String) (plain : ∀ word ∈ words, Flat (upper word.toList)) :
    (constant value words).Over Flat := joins_flat.bind (flat_keywords words plain) fun _ => joins_flat.pure value

theorem flat_typeName : typeName.Over Flat := by
  refine passes_choice _ _ (List.forall_mem_append.mpr ⟨fun r member => ?_, List.forall_mem_singleton.mpr ?_⟩)
  · obtain ⟨words, among, rfl⟩ := List.mem_map.mp member
    have plain : ∀ words ∈ longTypes, ∀ word ∈ words, Flat (upper word.toList) := by decide
    exact joins_flat.bind (flat_keywords words (plain words among)) fun _ => joins_flat.pure _
  · exact joins_flat.bind flat_word fun _ => joins_flat.pure _

/-- The members of a type need quotes. -/
theorem passes_memberType (d : Dialect) (P : Tree.ColumnType → List Char → Prop) : (memberType d).Passes P := by
  intro c type after bare found
  obtain ⟨name, place, head, tail⟩ := (reads_bind ..).mp found
  obtain ⟨members, last, listed, _⟩ := (reads_bind ..).mp tail
  have words : (choice (.choice [.keyword "ENUM", .keyword "SET"])
      [constant "enum" ["ENUM"], constant "set" ["SET"]]).Over Flat := by
    apply passes_choice
    simp only [List.forall_mem_cons]
    exact ⟨flat_constant _ _ (by decide), flat_constant _ _ (by decide +kernel), List.forall_mem_nil _⟩
  obtain ⟨_, split, _⟩ := words c name place bare head
  have none : (string d).Passes fun _ _ => False := passes_string d _
  obtain ⟨_, _, _, list, _, _, impossible⟩ :=
    passes_parenthesized_listOf (fun _ _ _ never _ => never) none place members last (bare.behind split) listed
  cases impossible <;> contradiction

theorem sealed_size (anywhere : Bool) : size.Over (Sealed anywhere) := by
  have joins := joins_sealed true
  have comma : comma.Over (Sealed true) := by
    refine (passes_mark ',').mono fun _ passed ahead => ?_
    obtain ⟨gap, rfl, blank⟩ := ahead
    exact (blank.flat.sealed true).append (.char (by decide) (fun _ => rfl) .nil)
  have integer := flat_integer.sealed true
  refine Passes.parenthesized (joins.bind integer fun _ => ?_) anywhere
  exact joins.bind (joins.optional (joins.bind comma fun _ => integer)) fun _ => joins.pure _

theorem sealed_columnType (d : Dialect) (anywhere : Bool) : (columnType d).Over (Sealed anywhere) := by
  have joins := joins_sealed anywhere
  refine passes_choice _ _ (List.forall_mem_cons.mpr ⟨passes_memberType d _, List.forall_mem_singleton.mpr ?_⟩)
  exact joins.bind (flat_typeName.sealed anywhere) fun _ => joins.bind (joins.optional (sealed_size anywhere))
    fun _ => joins.pure _

/-! Columns. -/

theorem sealed_defaultValue (d : Dialect) (anywhere : Bool) : (defaultValue d).Over (Sealed anywhere) := by
  have joins := joins_sealed anywhere
  have doubleColon : doubleColon.Over Flat := by
    refine joins_flat.recognised _ _ fun cs _ size _ found => ?_
    split at found
    next colons =>
      cases found
      obtain ⟨rest, rfl⟩ := List.isPrefixOf_iff_prefix.mp colons
      exact (by decide : Flat [':', ':'])
    next => contradiction
  cases d with
  | mysql => exact sealed_value .mysql anywhere
  | postgres =>
    refine joins.bind (sealed_value .postgres anywhere) fun _ => joins.bind (joins.optional ?_) fun _ => joins.pure _
    exact joins.bind (doubleColon.sealed anywhere) fun _ => flat_typeName.sealed anywhere

theorem sealed_columnAttribute (d : Dialect) (anywhere : Bool) : (columnAttribute d).Over (Sealed anywhere) := by
  have joins := joins_sealed anywhere
  have fixed (a : Attribute) (words : List String) (plain : ∀ word ∈ words, Flat (upper word.toList)) :
      (constant a words).Over (Sealed anywhere) := (flat_constant a words plain).sealed anywhere
  have given {α : Type} (make : α → Attribute) (intro : List String) (plain : ∀ word ∈ intro, Flat (upper word.toList))
      {r : Rule α} (across : r.Over (Sealed anywhere)) : (attributed make intro r).Over (Sealed anywhere) :=
    joins.bind ((flat_keywords intro plain).sealed anywhere) fun _ => joins.bind across fun _ => joins.pure _
  have charset : columnAttribute.charset.Over Flat := by
    refine joins_flat.bind (passes_choice _ _ ?_) fun _ => joins_flat.bind flat_word fun _ => joins_flat.pure _
    simp only [List.forall_mem_cons]
    exact ⟨flat_keywords _ (by decide), flat_keyword _ (by decide +kernel), List.forall_mem_nil _⟩
  have onUpdate : columnAttribute.onUpdate.Over (Sealed anywhere) :=
    joins.bind ((flat_keywords _ (by decide)).sealed anywhere) fun _ =>
      joins.bind (sealed_currentTimestamp anywhere) fun _ => joins.pure _
  apply passes_choice
  simp only [List.forall_mem_cons]
  exact ⟨fixed _ _ (by decide), fixed _ _ (by decide +kernel),
    given _ _ (by decide) (sealed_defaultValue d anywhere), fixed _ _ (by decide +kernel),
    fixed _ _ (by decide), fixed _ _ (by decide +kernel), fixed _ _ (by decide +kernel),
    fixed _ _ (by decide), fixed _ _ (by decide +kernel),
    given _ _ (by decide) ((flat_stringLiteral d).sealed anywhere), charset.sealed anywhere,
    given _ _ (by decide) (flat_word.sealed anywhere), onUpdate, List.forall_mem_nil _⟩

/-! Names. -/

/-- The text begins with the name behind a gap, and with what stops the name behind that. -/
def Leads (stop : Char → Bool) (name : String) (cs : List Char) : Prop :=
  ∃ gap rest, cs = gap ++ (name.toList ++ rest) ∧ Gap gap ∧ name.toList ≠ [] ∧
    (∀ c ∈ name.toList, isNamePart c = true) ∧ ∀ c ∈ rest.head?, stop c = true

theorem Leads.append_gap {stop : Char → Bool} {name : String} {cs gap : List Char} (leads : Leads stop name cs)
    (stops : ∀ c, Cursor.isGap c = true → stop c = true) (blank : Gap gap) : Leads stop name (cs ++ gap) := by
  obtain ⟨front, rest, rfl, ahead, filled, parts, ended⟩ := leads
  refine ⟨front, rest ++ gap, by simp, ahead, filled, parts, fun c first => ?_⟩
  rw [List.head?_append] at first
  cases next : rest.head? with
  | some d =>
    rw [next, Option.some_or, Option.mem_some_iff] at first
    exact first ▸ ended d next
  | none =>
    rw [next, Option.none_or] at first
    exact stops c (blank c (List.mem_of_mem_head? first))

/-- The name that is read is the whole word that stands there. -/
theorem reads_identifier {d : Dialect} {c after : Cursor} {name : String} (bare : Bare c.rest)
    (found : (identifier d).Reads c name after) :
    ∃ gap, c.rest = (gap ++ name.toList) ++ after.rest ∧ Gap gap ∧ name.toList ≠ [] ∧
      (∀ x ∈ name.toList, isNamePart x = true) ∧ after.rest.head?.any isNamePart = false ∧
      after.previous.any touchesKeyword = true := by
  obtain ⟨r, member, reads⟩ := ((reads_choice ..).mp found).exists_mem
  rw [List.mem_cons, List.mem_singleton] at member
  rcases member with rfl | rfl
  · have never := passes_quoted (by cases d <;> decide) (fun _ _ => False) c name after bare reads
    exact never.elim fun _ both => both.2.elim
  · obtain ⟨first, rest, here, start, rfl, rfl⟩ := (reads_wordOf ..).mp reads
    obtain ⟨gap, split, blank⟩ := c.gap_skipGap
    have all : ∀ x ∈ first :: rest.takeWhile isNamePart, isNamePart x = true :=
      List.forall_mem_cons.mpr ⟨by simp [isNamePart, isPlainWord_of_isWordStart first start],
        fun x inside => List.mem_takeWhile_imp inside⟩
    have whole : (first :: rest.takeWhile isNamePart) ++ rest.dropWhile isNamePart = c.skipGap.rest := by
      rw [here, List.cons_append, List.takeWhile_append_dropWhile]
    have left :
        (c.skipGap.advance (first :: rest.takeWhile isNamePart).length).rest = rest.dropWhile isNamePart := by
      rw [Cursor.advance, ← whole, List.drop_left]
    have last : (c.skipGap.advance (first :: rest.takeWhile isNamePart).length).previous =
        (first :: rest.takeWhile isNamePart).getLast? := by
      rw [Cursor.advance, ← whole, List.take_left, List.getLast?_eq_some_getLast (List.cons_ne_nil _ _)]
      rfl
    refine ⟨gap, ?_, blank, by simp, by simpa using all, ?_, ?_⟩
    · rw [left, String.toList_ofList, List.append_assoc, whole, ← split]
    · have ended := List.head?_dropWhile_not isNamePart rest
      rw [left]
      cases next : (rest.dropWhile isNamePart).head? with
      | none => rfl
      | some x => simpa [next] using ended
    · rw [last, List.getLast?_eq_some_getLast (List.cons_ne_nil _ _)]
      exact (touches_of_isNamePart _ (all _ (List.getLast_mem _))).1

/-- A gap parts the type of a column from its name. -/
theorem gap_of_reads_columnType {d : Dialect} {c after : Cursor} {type : Tree.ColumnType} (bare : Bare c.rest)
    (found : (columnType d).Reads c type after) (torn : c.previous.any touchesKeyword = true)
    (ended : c.rest.head?.any isNamePart = false) : c.rest.head?.any Cursor.isGap = true := by
  by_contra filled
  rw [Bool.not_eq_true] at filled
  have still : c.skipGap = c := by
    rw [Cursor.skipGap_of_append c [] c.rest rfl gap_nil filled]
    exact c.advance_zero
  obtain ⟨r, member, reads⟩ := ((reads_choice ..).mp found).exists_mem
  rw [List.mem_cons, List.mem_singleton] at member
  rcases member with rfl | rfl
  · exact (passes_memberType d (fun _ _ => False) c type after bare reads).elim fun _ never => never.2.elim
  · obtain ⟨name, place, head, _⟩ := (reads_bind ..).mp reads
    obtain ⟨s, among, spelled⟩ := ((reads_choice ..).mp head).exists_mem
    rw [List.mem_append, List.mem_map, List.mem_singleton] at among
    rcases among with ⟨words, known, rfl⟩ | rfl
    · obtain ⟨_, last, first, _⟩ := (reads_bind ..).mp spelled
      have opening : ∃ word last, (keyword word).Reads c () last := by
        have several : ∀ words ∈ longTypes, ∃ word next others, words = word :: next :: others := by
          simp [longTypes]
        obtain ⟨word, next, others, rfl⟩ := several words known
        obtain ⟨_, middle, here, _⟩ := (reads_bind ..).mp first
        exact ⟨word, middle, here⟩
      obtain ⟨word, middle, here⟩ := opening
      have free := ((reads_keyword ..).mp here).2.1
      rw [still, torn] at free
      contradiction
    · obtain ⟨kind, last, first, _⟩ := (reads_bind ..).mp spelled
      obtain ⟨letter, more, here, start, _⟩ := (reads_word ..).mp first
      rw [still] at here
      rw [here, List.head?_cons, Option.any_some, isNamePart, isPlainWord_of_isWordStart letter start] at ended
      contradiction

theorem flat_of_isNamePart {cs : List Char} (parts : ∀ c ∈ cs, isNamePart c = true) : Flat cs := by
  intro c member
  refine ⟨?_, ?_, ?_⟩ <;> rintro rfl <;> exact absurd (parts _ member) (by decide)

theorem isBlank_of_isNamePart (c : Char) (part : isNamePart c = true) : isBlank c = false := by
  simp only [isNamePart, Bool.or_eq_true, beq_iff_eq] at part
  rcases part with plain | rfl
  · exact forall_ascii (P := fun c => isPlainWord c = true → isBlank c = false) (by decide +kernel) c
      (ascii_of_isPlainWord c plain) plain
  · decide

/-- A name and what stands behind it, up to a later place. -/
theorem leads_of_reads {stop : Char → Bool} {c named last : Cursor} {name : String} {gap more : List Char}
    (split : c.rest = (gap ++ name.toList) ++ named.rest) (blank : Gap gap) (filled : name.toList ≠ [])
    (parts : ∀ x ∈ name.toList, isNamePart x = true) (rest : named.rest = more ++ last.rest) (kept : Sealed false more)
    (border : ∀ x, named.rest.head? = some x → stop x = true) :
    ∃ passed, c.rest = passed ++ last.rest ∧ Sealed false passed ∧ Leads stop name passed := by
  refine ⟨gap ++ (name.toList ++ more), by rw [split, rest]; simp, ?_, gap, more, rfl, blank, filled, parts, ?_⟩
  · exact (blank.flat.sealed false).append (((flat_of_isNamePart parts).sealed false).append kept)
  · intro x first
    rw [Option.mem_def] at first
    exact border x (by rw [rest, List.head?_append, first, Option.some_or])

/-- What a column definition passes over. -/
def ColumnText (column : Tree.Column) (cs : List Char) : Prop := Sealed false cs ∧ Leads Cursor.isGap column.name cs

theorem passes_column (d : Dialect) : (column d).Passes ColumnText := by
  intro c column last bare found
  obtain ⟨_, start, none, found⟩ := (reads_bind ..).mp found
  obtain ⟨_, rfl⟩ := (reads_without ..).mp none
  obtain ⟨name, named, head, found⟩ := (reads_bind ..).mp found
  obtain ⟨gap, split, blank, filled, parts, ended, torn⟩ := reads_identifier bare head
  have joins := joins_sealed false
  have flag (word : String) (plain : Flat (upper word.toList)) :
      (optional (keyword word)).Over (Sealed false) := joins.optional ((flat_keyword word plain).sealed false)
  obtain ⟨more, rest, kept⟩ := joins.bind (sealed_columnType d false) (fun _ =>
    joins.bind (flag "UNSIGNED" (by decide)) fun _ => joins.bind (flag "ZEROFILL" (by decide +kernel)) fun _ =>
      joins.bind (joins.many (sealed_columnAttribute d false)) fun _ => joins.pure _) named column last
        (bare.behind split) found
  obtain ⟨type, typed, first, found⟩ := (reads_bind ..).mp found
  obtain ⟨_, _, _, found⟩ := (reads_bind ..).mp found
  obtain ⟨_, _, _, found⟩ := (reads_bind ..).mp found
  obtain ⟨_, _, _, found⟩ := (reads_bind ..).mp found
  obtain ⟨rfl, _⟩ := (reads_pure ..).mp found
  have parted := gap_of_reads_columnType (bare.behind split) first torn ended
  refine leads_of_reads split blank filled parts rest kept fun x first => ?_
  rw [first, Option.any_some] at parted
  exact parted

/-! Indexes. -/

/-- What the definition of a column of an index passes over. -/
def PartText (part : Tree.IndexColumn) (cs : List Char) : Prop :=
  Sealed false cs ∧ Leads (!isNamePart ·) part.column cs

theorem passes_indexColumn (d : Dialect) : (indexColumn d).Passes PartText := by
  intro c part last bare found
  obtain ⟨name, named, head, found⟩ := (reads_bind ..).mp found
  obtain ⟨gap, split, blank, filled, parts, ended, _⟩ := reads_identifier bare head
  have joins := joins_sealed false
  have direction : direction.Over Flat := by
    refine joins_flat.optional (passes_choice _ _ ?_)
    simp only [List.forall_mem_cons]
    exact ⟨flat_keyword _ (by decide), flat_keyword _ (by decide +kernel), List.forall_mem_nil _⟩
  obtain ⟨more, rest, kept⟩ := joins.bind (joins.optional ((flat_integer.sealed true).parenthesized false)) (fun _ =>
    joins.bind (direction.sealed false) fun _ => joins.pure _) named part last (bare.behind split) found
  obtain ⟨_, _, _, found⟩ := (reads_bind ..).mp found
  obtain ⟨_, _, _, found⟩ := (reads_bind ..).mp found
  obtain ⟨rfl, _⟩ := (reads_pure ..).mp found
  refine leads_of_reads split blank filled parts rest kept fun x first => ?_
  rw [first, Option.any_some] at ended
  simp [ended]

/-- A part between parentheses, with neither parentheses nor commas around them. -/
def Amid (P : List Char → Prop) (cs : List Char) : Prop :=
  ∃ front list back, cs = front ++ '(' :: (list ++ ')' :: back) ∧ Flat front ∧ Flat back ∧ P list

theorem Amid.behind {P : List Char → Prop} {cs : List Char} (amid : Amid P cs) {front : List Char} (flat : Flat front) :
    Amid P (front ++ cs) := by
  obtain ⟨first, list, back, rfl, plain, ended, holds⟩ := amid
  exact ⟨front ++ first, list, back, by simp, flat.append plain, ended, holds⟩

theorem Amid.append {P : List Char → Prop} {cs back : List Char} (amid : Amid P cs) (flat : Flat back) :
    Amid P (cs ++ back) := by
  obtain ⟨first, list, last, rfl, plain, ended, holds⟩ := amid
  exact ⟨first, list, last ++ back, by simp, plain, ended.append flat, holds⟩

/-- A list of columns of an index, between parentheses and with neither parentheses nor commas around them. -/
def ListText (columns : List Tree.IndexColumn) (cs : List Char) : Prop :=
  ∃ front list back, cs = front ++ '(' :: (list ++ ')' :: back) ∧ Flat front ∧ Flat back ∧ Listed PartText columns list

theorem ListText.append {columns : List Tree.IndexColumn} {cs back : List Char} (text : ListText columns cs)
    (flat : Flat back) : ListText columns (cs ++ back) := Amid.append text flat

theorem ListText.sealed {columns : List Tree.IndexColumn} {cs : List Char} (text : ListText columns cs) :
    Sealed false cs := by
  obtain ⟨front, list, back, rfl, plain, ended, listed⟩ := text
  exact (plain.sealed false).append (.group (listed.sealed fun _ _ part => part.1) (ended.sealed false))

/-- What stands in front makes no difference. -/
theorem Passes.behind {α β : Type} {r : Rule α} {next : α → Rule β} {P : β → List Char → Prop} (first : r.Over Flat)
    (second : ∀ a, (next a).Passes fun b => Amid (P b)) : (r >>= next).Passes fun b => Amid (P b) :=
  Passes.bind first second fun _ _ _ _ flat amid => amid.behind flat

theorem passes_indexColumns (d : Dialect) : (indexColumns d).Passes ListText := by
  have stable (part : Tree.IndexColumn) (cs gap : List Char) (text : PartText part cs) (blank : Gap gap) :
      PartText part (cs ++ gap) := by
    have stops (c : Char) (space : Cursor.isGap c = true) : (!isNamePart c) = true := by
      cases named : isNamePart c with
      | false => rfl
      | true =>
        rw [(touches_of_isNamePart c named).2] at space
        contradiction
    exact ⟨text.1.append (blank.flat.sealed false), text.2.append_gap stops blank⟩
  refine (passes_parenthesized_listOf stable (passes_indexColumn d)).mono fun columns cs text => ?_
  obtain ⟨gap, list, rfl, blank, listed⟩ := text
  exact ⟨gap, list, [], rfl, blank.flat, flat_nil, listed⟩

theorem flat_usingMethod : usingMethod.Over Flat :=
  joins_flat.bind (flat_keyword _ (by decide)) fun _ => joins_flat.bind flat_word fun _ => joins_flat.pure ()

/-- The columns of an index, and the method behind them. -/
theorem passes_listed {α : Type} (d : Dialect) (f : α → List Tree.IndexColumn) (make : List Tree.IndexColumn → α)
    (same : ∀ columns, f (make columns) = columns) :
    (do
      let columns ← indexColumns d
      let _ ← optional usingMethod
      return make columns : Rule α).Passes fun a => ListText (f a) := by
  have onward (columns : List Tree.IndexColumn) : (do
      let _ ← optional usingMethod
      return make columns : Rule α).Passes fun a cs => Flat cs ∧ f a = columns :=
    (joins_flat.optional flat_usingMethod).map fun _ _ flat => ⟨flat, same columns⟩
  refine Passes.bind (passes_indexColumns d) onward fun columns a front more text ended => ?_
  rw [ended.2]
  exact text.append ended.1

theorem flat_primaryKey : primaryKey.Over Flat := flat_keywords _ (by decide)

theorem flat_constraintName (d : Dialect) : (constraintName d).Over Flat :=
  joins_flat.bind (flat_keyword _ (by decide)) fun _ =>
    joins_flat.optional (joins_flat.bind (joins_flat.without _ _) fun _ => flat_identifier d)

theorem flat_uniqueType : uniqueType.Over Flat := by
  apply passes_choice
  simp only [List.forall_mem_cons]
  exact ⟨flat_constant _ _ (by decide), flat_constant _ _ (by decide +kernel),
    flat_constant _ _ (by decide), List.forall_mem_nil _⟩

theorem flat_keyType : keyType.Over Flat := by
  have keyWord : keyWord.Over Flat := by
    apply passes_choice
    simp only [List.forall_mem_cons]
    exact ⟨flat_constant _ _ (by decide), flat_constant _ _ (by decide +kernel), List.forall_mem_nil _⟩
  have special : (choice (.choice [.keyword "SPATIAL", .keyword "FULLTEXT"])
      [constant "spatial" ["SPATIAL"], constant "fulltext" ["FULLTEXT"]]).Over Flat := by
    apply passes_choice
    simp only [List.forall_mem_cons]
    exact ⟨flat_constant _ _ (by decide), flat_constant _ _ (by decide +kernel), List.forall_mem_nil _⟩
  apply passes_choice
  simp only [List.forall_mem_cons]
  refine ⟨joins_flat.bind special fun _ => joins_flat.bind (joins_flat.optional keyWord) fun word => ?_,
    flat_constant _ _ (by decide), flat_constant _ _ (by decide +kernel), List.forall_mem_nil _⟩
  cases word <;> exact joins_flat.pure _

theorem passes_indexBody (d : Dialect) : (indexBody d).Passes fun body => ListText body.2 := by
  have name : (indexName d).Over Flat := joins_flat.bind (joins_flat.without _ _) fun _ => flat_identifier d
  refine Passes.behind (joins_flat.optional name) fun _ => ?_
  exact Passes.behind (joins_flat.optional flat_usingMethod) fun _ => passes_listed d _ _ fun _ => rfl

/-- What the definition of an index passes over. -/
theorem passes_index (d : Dialect) : (index d).Passes fun i => ListText i.columns := by
  have body {make : Option String × List Tree.IndexColumn → Tree.Index} (same : ∀ body, (make body).columns = body.2) :
      (do
        let body ← indexBody d
        return make body : Rule Tree.Index).Passes fun i => ListText i.columns :=
    (passes_indexBody d).map fun body _ text => (same body).symm ▸ text
  apply passes_choice
  simp only [List.forall_mem_cons]
  refine ⟨?_, ?_, ?_, List.forall_mem_nil _⟩
  · refine Passes.behind (joins_flat.optional (flat_constraintName d)) fun _ => ?_
    refine Passes.behind flat_primaryKey fun _ => ?_
    exact Passes.behind (joins_flat.optional flat_usingMethod) fun _ => passes_listed d _ _ fun _ => rfl
  · refine Passes.behind (joins_flat.optional (flat_constraintName d)) fun _ => ?_
    exact Passes.behind flat_uniqueType fun _ => body fun _ => rfl
  · exact Passes.behind flat_keyType fun _ => body fun _ => rfl

/-! Tables. -/

def ItemText : Item → List Char → Prop
  | .column c => ColumnText c
  | .index i => ListText i.columns

theorem ItemText.sealed {item : Item} {cs : List Char} (text : ItemText item cs) : Sealed false cs := by
  cases item with
  | column c => exact text.1
  | index i => exact ListText.sealed text

theorem ItemText.append_gap (item : Item) (cs gap : List Char) (text : ItemText item cs) (blank : Gap gap) :
    ItemText item (cs ++ gap) := by
  cases item with
  | column c => exact ⟨text.1.append (blank.flat.sealed false), text.2.append_gap (fun _ space => space) blank⟩
  | index i => exact ListText.append text blank.flat

theorem passes_item (d : Dialect) : (item d).Passes ItemText := by
  apply passes_choice
  simp only [List.forall_mem_cons]
  exact ⟨(passes_index d).map fun _ _ text => text, (passes_column d).map fun _ _ text => text, List.forall_mem_nil _⟩

theorem flat_table (d : Dialect) : (table d).Over Flat := by
  have point : (mark '.').Over Flat := by
    refine (passes_mark '.').mono fun _ passed ahead => ?_
    obtain ⟨gap, rfl, blank⟩ := ahead
    exact blank.flat.append (by decide)
  have qualifier := joins_flat.bind (flat_identifier d) fun name => joins_flat.bind point fun _ => joins_flat.pure name
  refine joins_flat.bind (joins_flat.bind (joins_flat.optional qualifier) fun _ =>
    joins_flat.bind (flat_identifier d) fun _ => joins_flat.pure _) fun found => joins_flat.pure _

/-- What the definition of a table passes over: its definitions between parentheses, with commas between them. -/
def TableText (s : Tree.SchemaStatement) (cs : List Char) : Prop :=
  ∃ items front list back body, cs = front ++ '(' :: (list ++ ')' :: back) ∧ Flat front ∧ Listed ItemText items list ∧
    s.body = some body ∧ body.columns = items.filterMap Item.column? ∧ body.indexes = items.filterMap Item.index?

theorem passes_createTable (d : Dialect) : (createTable d).Passes TableText := by
  have behind {α : Type} {r : Rule α} {next : α → Rule Tree.SchemaStatement} (first : r.Over Flat)
      (second : ∀ a, (next a).Passes TableText) : (r >>= next).Passes TableText := by
    refine Passes.bind first second fun _ s front more flat text => ?_
    obtain ⟨items, ahead, list, back, body, rfl, plain, found⟩ := text
    exact ⟨items, front ++ ahead, list, back, body, by simp, flat.append plain, found⟩
  refine behind (flat_keyword _ (by decide)) fun _ => ?_
  refine behind (joins_flat.optional (flat_keyword _ (by decide))) fun _ => ?_
  refine behind (flat_keyword _ (by decide)) fun _ => ?_
  refine behind (joins_flat.optional (flat_keywords _ (by decide))) fun _ => ?_
  refine behind (flat_table d) fun name => ?_
  have onward : (optional Rule.rest).Passes fun _ _ => True :=
    (passes_optional (passes_recognised (P := fun _ _ => True) _ _ fun _ _ _ _ _ => trivial)).mono fun _ _ _ => trivial
  refine Passes.bind (passes_parenthesized_listOf ItemText.append_gap (passes_item d)) (fun items =>
    Passes.bind onward (fun options => passes_pure (P := fun s _ => ∃ body, s.body = some body ∧
      body.columns = items.filterMap Item.column? ∧ body.indexes = items.filterMap Item.index?) _ ⟨_, rfl, rfl, rfl⟩)
      (Q := fun s _ => ∃ body, s.body = some body ∧ body.columns = items.filterMap Item.column? ∧
        body.indexes = items.filterMap Item.index?) fun _ _ _ _ _ made => made) fun items s front more listed made => ?_
  obtain ⟨gap, list, rfl, blank, text⟩ := listed
  obtain ⟨body, found⟩ := made
  exact ⟨items, gap, list, more, body, by simp, blank.flat, text, found⟩

end Rule
end SqlSchema.Reader
