import SqlSchema.Proofs.Attempt
import SqlSchema.Proofs.Reader.Column
import SqlSchema.Proofs.Reader.RunOn
import SqlSchema.Proofs.Text.Tabs
import SqlSchema.Proofs.Text.Trim
import SqlSchema.Reader.Tree

/-! Trees of whole texts. What the rules for statements promise holds of every tree that is read. -/
namespace SqlSchema.Tree
open Attempt Text

/-- Without comments, the text creates an index with a keyword that runs on. -/
def RunsOn (d : Dialect) (text : String) : Prop :=
  ∃ plain, Statement.strip d text.toList = .ok plain ∧ Reader.RunsOn (expandTabs (dropSemicolon plain))

theorem prefix_dropSemicolon (cs : List Char) : dropSemicolon cs <+: cs := by
  unfold dropSemicolon
  split
  · exact (List.rdropWhile_prefix _ _).trans (List.dropLast_prefix cs)
  · exact List.prefix_rfl

theorem isBlank_of_isGap (c : Char) (gap : Reader.Cursor.isGap c = true) : isBlank c = true := by
  simp only [Reader.Cursor.isGap, Bool.or_eq_true, beq_iff_eq] at gap
  rcases gap with ((rfl | rfl) | rfl) | rfl <;> decide

theorem not_isBlank_of_isAlpha (c : Char) (letter : c.isAlpha = true) : isBlank c = false :=
  forall_ascii (P := fun c => c.isAlpha = true → isBlank c = false) (by decide) c (ascii_of_isAlpha c letter)
    letter

theorem upper_firstWord_of_opens (gap cs rest : List Char) (word : String) (opened : Reader.Opens gap word cs rest)
    (capital : Reader.Capital word) (parted : rest.head?.any isBlank = true) : upper (firstWord cs) = word.toList := by
  obtain ⟨blank, spelled, rfl, alike⟩ := opened
  have letters := Reader.letters_of_alike word capital spelled alike
  have visible : ∀ c ∈ spelled, isBlank c = false := fun c member => not_isBlank_of_isAlpha c (letters c member)
  have filled : spelled ≠ [] := by
    rintro rfl
    rw [List.map_nil, eq_comm, List.map_eq_nil_iff] at alike
    exact capital.1 alike
  have ended : ∀ c, rest.head? = some c → isBlank c = true := by
    intro c head
    rwa [head, Option.any_some] at parted
  rw [firstWord_blank_append fun g member => isBlank_of_isGap g (blank g member), firstWord_append visible filled ended,
    Reader.upper_of_alike word capital spelled alike, upper_of_isUpper word.toList capital.isUpper]

theorem openingWord_of_runsOn (cs : List Char) (run : Reader.RunsOn (expandTabs cs)) : openingWord cs = "CREATE" := by
  obtain ⟨gap, created, replaced, c, more, create, between, follows, _⟩ := run
  have parted : created.head?.any isBlank = true := by
    have blank (word : String) (rest : List Char) (behind : Reader.Follows word created rest) :
        created.head?.any isBlank = true := by
      obtain ⟨filling, filled, all, spelled, rfl, _⟩ := behind
      obtain ⟨g, others, rfl⟩ := List.exists_cons_of_ne_nil filled
      exact isBlank_of_isGap g (all g (List.mem_cons_self ..))
    rcases between with rfl | ⟨either, other, _⟩
    · exact blank _ _ follows
    · exact blank _ _ other
  have word := upper_firstWord_of_opens gap _ created "CREATE" create (by decide) parted
  rw [firstWord_expandTabs] at word
  rw [openingWord, word, String.ofList_toList]

theorem gives_ofPlain_iff (d : Dialect) (cs : List Char) (s : SchemaStatement) :
    (ofPlain d cs).Gives (.schema s) ↔
      openingWord cs ∈ schemaWords ∧ (Reader.Rule.statement d).readAll (expandTabs cs) = .ok s := by
  unfold ofPlain
  cases cs with
  | nil =>
    have empty : openingWord [] ∉ schemaWords := by decide
    simp [empty]
  | cons c rest =>
    simp only [List.isEmpty_cons, Bool.false_eq_true, if_false, List.contains_iff_mem]
    split
    next known =>
      rw [and_iff_right known]
      simp [mapError_eq_ok]
    next foreign =>
      simp only [foreign, false_and, iff_false, gives_bind, not_exists, not_and]
      intro kind _
      cases kind <;> simp

/-- Only nesting interrupts the reading of a statement without comments, and only where its kind has to be told. -/
theorem stops_ofPlain_iff (d : Dialect) (cs : List Char) (i : Interruption) :
    (ofPlain d cs).Stops i ↔ cs ≠ [] ∧ openingWord cs ∉ schemaWords ∧ Statement.classify cs = .error i := by
  unfold ofPlain
  cases cs with
  | nil => simp
  | cons c rest =>
    simp only [List.isEmpty_cons, Bool.false_eq_true, if_false, List.contains_iff_mem]
    split
    next known =>
      simp only [known, not_true_eq_false, false_and, and_false, iff_false]
      simp
    next foreign =>
      simp only [foreign, breaks_bind, breaks_lift, Break.interrupted.injEq, not_false_iff, true_and, ne_eq,
        reduceCtorEq]
      constructor
      · intro holds
        rcases holds with ⟨j, found, rfl⟩ | ⟨kind, _, stopped⟩
        · exact found
        · cases kind <;> simp at stopped
      · exact fun found => .inl ⟨i, found, rfl⟩

theorem read_of_strip {d : Dialect} {text : String} {plain : List Char}
    (stripped : Statement.strip d text.toList = .ok plain) : read d text = ofPlain d (dropSemicolon plain) := by
  rw [read, stripped]
  rfl

theorem gives_schema_iff (d : Dialect) (text : String) (s : SchemaStatement) :
    (read d text).Gives (.schema s) ↔
      ∃ plain, Statement.strip d text.toList = .ok plain ∧
        openingWord (dropSemicolon plain) ∈ schemaWords ∧
        (Reader.Rule.statement d).readAll (expandTabs (dropSemicolon plain)) = .ok s := by
  simp only [read, gives_bind, gives_lift, gives_ofPlain_iff]

/-- A tree misses parts exactly where a keyword runs on. -/
theorem misshapen_iff (d : Dialect) (text : String) (s : SchemaStatement) :
    (read d text).Gives (.schema s) ∧ ¬ s.Shaped ↔ RunsOn d text ∧ s = { action := Action.createIndex } := by
  simp only [gives_schema_iff, RunsOn]
  constructor
  · intro holds
    obtain ⟨⟨plain, stripped, _, found⟩, misshapen⟩ := holds
    obtain ⟨run, same⟩ := (Reader.Rule.readAll_misshapen_iff d _ s).mp ⟨found, misshapen⟩
    exact ⟨⟨plain, stripped, run⟩, same⟩
  · intro holds
    obtain ⟨⟨plain, stripped, run⟩, same⟩ := holds
    obtain ⟨found, misshapen⟩ := (Reader.Rule.readAll_misshapen_iff d _ s).mpr ⟨run, same⟩
    refine ⟨⟨plain, stripped, ?_, found⟩, misshapen⟩
    rw [openingWord_of_runsOn _ run]
    decide

theorem known_read (d : Dialect) (text : String) (s : SchemaStatement) (given : (read d text).Gives (.schema s)) :
    ∀ body ∈ s.body, ∀ c ∈ body.columns, Reader.Known c.type.keyOption := by
  obtain ⟨plain, _, _, found⟩ := (gives_schema_iff d text s).mp given
  obtain ⟨after, reads, _⟩ := (Reader.Rule.readAll_eq_ok ..).mp found
  exact Reader.Rule.known_statement d _ s after reads

end SqlSchema.Tree
