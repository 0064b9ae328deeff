import SqlSchema.Proofs.Reader.Failing
import SqlSchema.Proofs.Tree

/-! Bounds on the places where the grammar fails. No place lies in front of the word that opens the statement, and none
behind the end of the text, unless the text ends with a keyword whose letters are drawn together. -/
namespace SqlSchema.Reader
open Text Rule

/-! In front. -/

/-- The place lies behind so many characters, or at white space right after them. -/
def Past (front : Nat) (c : Cursor) : Prop :=
  front ≤ c.size ∧
    (front < c.position ∨ c.position = front ∧ ∀ first, c.rest.head? = some first → isBlank first = true)

/-- No keyword is spelled by nothing, or begins with white space. -/
theorem visible_of_keyword {word : String} (known : word ∈ vocabulary) {cs : List Char}
    (same : upper (cs.take word.length) = upper word.toList) : ∃ first, cs.head? = some first ∧ isBlank first = false := by
  have letters : ∀ word ∈ vocabulary, 0 < word.length ∧ (upper word.toList).head?.any Char.isAlpha = true := by decide
  obtain ⟨positive, alpha⟩ := letters word known
  rw [← same, head?_upper_take cs _ positive] at alpha
  cases cs with
  | nil => exact absurd alpha (by decide)
  | cons first rest =>
    obtain ⟨capital, others, found⟩ := List.exists_cons_of_ne_nil (capitals_ne_nil first)
    have head : (upper (first :: rest)).head? = some capital := by
      rw [upper, List.flatMap_cons, found, List.cons_append, List.head?_cons]
    rw [head, Option.any_some] at alpha
    exact ⟨first, rfl, not_isBlank_of_capital first capital (by rw [found, List.head?_cons]) alpha⟩

theorem length_pos_of_vocabulary {word : String} (known : word ∈ vocabulary) : 0 < word.length :=
  (by decide : ∀ word ∈ vocabulary, 0 < word.length) word known

theorem Past.advance {front n : Nat} {c : Cursor} (past : Past front c) (positive : 0 < n) : Past front (c.advance n) := by
  refine ⟨past.1, .inl ?_⟩
  have reached : front ≤ c.position := past.2.elim Nat.le_of_lt fun here => here.1.ge
  exact Nat.lt_of_le_of_lt reached (Nat.lt_add_of_pos_right positive)

theorem Past.skipGap {front : Nat} {c : Cursor} (past : Past front c) : Past front c.skipGap := by
  rcases Nat.eq_zero_or_pos (c.rest.takeWhile Cursor.isGap).length with none | some
  · rw [Cursor.skipGap, none, Cursor.advance_zero]
    exact past
  · exact past.advance some

theorem preserved_past (front : Nat) : Preserved (Past front) (front ≤ ·) where
  position c past := past.2.elim Nat.le_of_lt fun here => here.1.ge
  size c past := past.1
  advance c n past positive _ := past.advance positive
  keyword word known c after past reads := by
    obtain ⟨_, _, _, rfl⟩ := (reads_keyword ..).mp reads
    exact past.skipGap.advance (length_pos_of_vocabulary known)
  failure word known c f past reports := by
    have next := past.skipGap.2
    rcases reports_keyword reports with same | ⟨spelled, same | ⟨_, same⟩⟩
    · rw [same]
      exact next.elim Nat.le_of_lt fun here => here.1.ge
    · rw [same]
      rcases next with behind | ⟨_, blank⟩
      · omega
      · obtain ⟨first, head, visible⟩ := visible_of_keyword known spelled
        rw [blank first head] at visible
        contradiction
    · rw [same]
      rcases next with behind | ⟨here, _⟩ <;> omega

/-! Behind. -/

/-- The text ends with a keyword that has so many more letters than are written, since some are drawn together. -/
def Contracted (cs : List Char) (excess : Nat) : Prop :=
  0 < excess ∧ ∃ word ∈ vocabulary, ∃ tail, tail <:+ cs ∧ upper tail = upper word.toList ∧ tail.length + excess = word.length

/-- The place lies in the text, or as far behind its end as letters are drawn together there. -/
def Inside (cs : List Char) (c : Cursor) : Prop :=
  c.size = cs.length ∧ c.rest <:+ cs ∧
    (c.position + c.rest.length = cs.length ∨
      c.rest = [] ∧ ∃ excess, Contracted cs excess ∧ c.position = cs.length + excess)

/-- A position in the text, or as far behind its end as letters are drawn together there. -/
def Within (cs : List Char) (position : Nat) : Prop :=
  position ≤ cs.length ∨ ∃ excess, Contracted cs excess ∧ position ≤ cs.length + excess

variable {cs : List Char} {c : Cursor}

theorem inside_start (cs : List Char) : Inside cs (.start cs) := ⟨rfl, List.suffix_rfl, .inl (Nat.zero_add _)⟩

theorem Inside.within (inside : Inside cs c) : Within cs c.position := by
  rcases inside.2.2 with here | ⟨_, excess, contracted, behind⟩
  · exact .inl (by omega)
  · exact .inr ⟨excess, contracted, behind.le⟩

theorem Within.mono {p q : Nat} (within : Within cs p) (less : q ≤ p) : Within cs q :=
  within.imp less.trans fun ⟨excess, contracted, bound⟩ => ⟨excess, contracted, less.trans bound⟩

theorem Inside.advance {n : Nat} (inside : Inside cs c) (positive : 0 < n) (bound : n ≤ c.rest.length) :
    Inside cs (c.advance n) := by
  refine ⟨inside.1, (List.drop_suffix n c.rest).trans inside.2.1, .inl ?_⟩
  rcases inside.2.2 with here | ⟨empty, _⟩
  · simp only [Cursor.advance, List.length_drop]
    omega
  · rw [empty, List.length_nil] at bound
    omega

theorem Inside.skipGap (inside : Inside cs c) : Inside cs c.skipGap := by
  rcases Nat.eq_zero_or_pos (c.rest.takeWhile Cursor.isGap).length with none | some
  · rw [Cursor.skipGap, none, Cursor.advance_zero]
    exact inside
  · exact inside.advance some (List.takeWhile_prefix _).length_le

/-- A keyword may take all that is left and count it for longer than it is. -/
theorem Inside.advance_keyword {word : String} (inside : Inside cs c) (known : word ∈ vocabulary)
    (spelled : upper (c.rest.take word.length) = upper word.toList) : Inside cs (c.advance word.length) := by
  have positive := length_pos_of_vocabulary known
  rcases Nat.lt_or_ge c.rest.length word.length with short | long
  · rw [List.take_of_length_le short.le] at spelled
    refine ⟨inside.1, (List.drop_suffix _ c.rest).trans inside.2.1, .inr ⟨List.drop_eq_nil_of_le short.le, ?_⟩⟩
    rcases inside.2.2 with here | ⟨empty, _⟩
    · have whole : c.rest.length + (word.length - c.rest.length) = word.length := by omega
      refine ⟨word.length - c.rest.length, ⟨by omega, word, known, c.rest, inside.2.1, spelled, whole⟩, ?_⟩
      simp only [Cursor.advance]
      omega
    · have none : ∀ word ∈ vocabulary, upper word.toList ≠ [] := by decide
      rw [empty, upper_nil] at spelled
      exact absurd spelled.symm (none word known)
  · exact inside.advance positive long

theorem preserved_inside (cs : List Char) : Preserved (Inside cs) (Within cs) where
  position c inside := inside.within
  size c inside := .inl inside.1.le
  advance c n inside := inside.advance
  keyword word known c after inside reads := by
    obtain ⟨spelled, _, _, rfl⟩ := (reads_keyword ..).mp reads
    exact inside.skipGap.advance_keyword known spelled
  failure word known c f inside reports := by
    have next := inside.skipGap
    rcases reports_keyword reports with same | ⟨_, same | ⟨more, same⟩⟩
    · exact same ▸ next.within
    · exact next.within.mono (by omega)
    · have long : word.length < c.skipGap.rest.length := by
        by_contra short
        exact more (List.drop_eq_nil_of_le (Nat.not_lt.mp short))
      rcases next.2.2 with here | ⟨empty, _⟩
      · exact .inl (by omega)
      · rw [empty, List.length_nil] at long
        omega

/-! Statements. -/

/-- The statement is one of several rules, each of them introduced by a word of the schema. -/
theorem exists_introduced (d : Dialect) :
    ∃ rules, statement d = choice (.named "statement") rules ∧
      (∀ r ∈ rules, ∃ word ∈ Tree.schemaWords, Introduced word r) ∧
      ∀ word ∈ Tree.schemaWords, ∃ r ∈ rules, Introduced word r := by
  refine ⟨_, rfl, ?_, ?_⟩
  · simp only [List.forall_mem_cons]
    exact ⟨⟨_, by decide, introduced_createTable d⟩, ⟨_, by decide, introduced_createIndex d⟩,
      ⟨_, by decide, introduced_createOther⟩, ⟨_, by decide, introduced_alterTable d⟩,
      ⟨_, by decide, introduced_dropTable d⟩, ⟨_, by decide, introduced_dropOther⟩,
      ⟨_, by decide, introduced_renameTable d⟩, ⟨_, by decide, introduced_truncateTable d⟩, List.forall_mem_nil _⟩
  · simp only [Tree.schemaWords, List.forall_mem_cons]
    exact ⟨⟨_, by simp, introduced_createTable d⟩, ⟨_, by simp, introduced_alterTable d⟩,
      ⟨_, by simp, introduced_dropTable d⟩, ⟨_, by simp, introduced_renameTable d⟩,
      ⟨_, by simp, introduced_truncateTable d⟩, List.forall_mem_nil _⟩

/-- The text begins with the word, and white space or the end of the text follows it. -/
structure OpensWith (word : String) (cs : List Char) : Prop where
  known : word ∈ Tree.schemaWords
  spelled : upper (cs.take word.length) = word.toList
  long : word.length ≤ cs.length
  parted : ∀ next, (cs.drop word.length).head? = some next → isBlank next = true

theorem isBlank_of_touchesKeyword (c : Char) (touches : touchesKeyword c = true) : isBlank c = false := by
  cases plain : isPlainWord c with
  | true =>
    exact forall_ascii (P := fun c => isPlainWord c = true → isBlank c = false) (by decide) c
      (ascii_of_isPlainWord c plain) plain
  | false =>
    have visible : ∀ c ∈ straddling, isBlank c = false := by decide
    exact visible c ((mem_straddling_iff c).mpr ⟨touches, plain⟩)

namespace OpensWith

variable {word : String} {α : Type} {r : Rule α} (opens : OpensWith word cs)
include opens

theorem mem_vocabulary : word ∈ vocabulary :=
  (by decide : ∀ word ∈ Tree.schemaWords, word ∈ vocabulary) word opens.known

theorem upper_take : upper (cs.take word.length) = upper word.toList := by
  rw [opens.spelled]
  exact ((by decide : ∀ word ∈ Tree.schemaWords, upper word.toList = word.toList) word opens.known).symm

theorem skipGap_start : (Cursor.start cs).skipGap = .start cs := by
  obtain ⟨first, head, visible⟩ := visible_of_keyword opens.mem_vocabulary opens.upper_take
  obtain ⟨rest, rfl⟩ := List.head?_eq_some_iff.mp head
  have solid : Cursor.isGap first = false := by
    by_contra gap
    rw [Tree.isBlank_of_isGap first (by simpa using gap)] at visible
    contradiction
  exact Cursor.skipGap_of_append (.start (first :: rest)) [] _ rfl (List.forall_mem_nil _) (by simp [solid])

theorem reads_keyword : (keyword word).Reads (.start cs) () ((Cursor.start cs).advance word.length) := by
  refine (Rule.reads_keyword ..).mpr ?_
  rw [opens.skipGap_start]
  refine ⟨opens.upper_take, rfl, ?_, rfl⟩
  cases next : (cs.drop word.length).head? with
  | none => exact congrArg (Option.any touchesKeyword) next
  | some c =>
    have quiet : touchesKeyword c = false := by
      by_contra touches
      have visible := isBlank_of_touchesKeyword c (by simpa using touches)
      rw [opens.parted c next] at visible
      contradiction
    exact (congrArg (Option.any touchesKeyword) next).trans quiet

theorem past : Past word.length ((Cursor.start cs).advance word.length) :=
  ⟨opens.long, .inr ⟨Nat.zero_add _, opens.parted⟩⟩

/-- Only rules that the word introduces read anything. -/
theorem word_of_reads {other : String} (introduced : Introduced other r) (known : other ∈ Tree.schemaWords) {a : α}
    {after : Cursor} (reads : r.Reads (.start cs) a after) : other = word := by
  obtain ⟨next, rfl, _⟩ := introduced
  obtain ⟨u, middle, first, _⟩ := (reads_bind ..).mp reads
  have spelled := ((Rule.reads_keyword ..).mp first).1
  rw [opens.skipGap_start] at spelled
  have letters : ∀ word ∈ Tree.schemaWords, 0 < word.length ∧
      ∀ other ∈ Tree.schemaWords, (upper other.toList).head? = (upper word.toList).head? → other = word := by decide
  have here := congrArg List.head? opens.upper_take
  have there := congrArg List.head? spelled
  rw [head?_upper_take _ _ (letters word opens.known).1] at here
  rw [head?_upper_take _ _ (letters other known).1] at there
  exact (letters word opens.known).2 other known (there.symm.trans here)

theorem past_of_reads (introduced : Introduced word r) {a : α} {after : Cursor} (reads : r.Reads (.start cs) a after) :
    Past word.length after := by
  obtain ⟨next, rfl, behind⟩ := introduced
  obtain ⟨u, middle, first, second⟩ := (reads_bind ..).mp reads
  obtain ⟨_, rfl⟩ := opens.reads_keyword.unique first
  exact ((behind u).preserves (preserved_past _) _ opens.past).1 a after second

theorem le_of_reports (introduced : Introduced word r) {f : Failure} (reports : r.Reports (.start cs) f) :
    word.length ≤ f.position := by
  obtain ⟨next, rfl, behind⟩ := introduced
  rcases (reports_bind ..).mp reports with first | ⟨u, middle, first, second⟩
  · exact absurd ⟨f, first⟩ opens.reads_keyword.not_fails
  · obtain ⟨_, rfl⟩ := opens.reads_keyword.unique first
    exact ((behind u).preserves (preserved_past _) _ opens.past).2 f second

/-- The statement fails behind the word that opens it. -/
theorem le_of_readAll {d : Dialect} {f : Failure} (failed : (statement d).readAll cs = .error f) :
    word.length ≤ f.position := by
  obtain ⟨rules, made, introduced, covered⟩ := exists_introduced d
  rcases (readAll_eq_error ..).mp failed with reports | ⟨s, after, reads, ended⟩
  · -- A rule that the word introduces gets behind it, and what is reported is the furthest.
    obtain ⟨r, among, leads⟩ := covered word opens.known
    obtain ⟨g, found, further⟩ := (reports_choice (made ▸ reports)).2 r among
    exact (opens.le_of_reports leads found).trans further
  · obtain ⟨r, among, found⟩ := ((reads_choice ..).mp (made ▸ reads)).exists_mem
    obtain ⟨other, known, leads⟩ := introduced r among
    obtain rfl := opens.word_of_reads leads known found
    rw [reports_endOfText ended]
    exact (preserved_past _).position _ (opens.past_of_reads leads found).skipGap

end OpensWith

theorem within_of_readAll {d : Dialect} {f : Failure} (failed : (statement d).readAll cs = .error f) :
    Within cs f.position := by
  have holds := (composed_statement d).preserves (preserved_inside cs) _ (inside_start cs)
  rcases (readAll_eq_error ..).mp failed with reports | ⟨s, after, reads, ended⟩
  · exact holds.2 f reports
  · rw [reports_endOfText ended]
    exact (holds.1 s after reads).skipGap.within

end SqlSchema.Reader
