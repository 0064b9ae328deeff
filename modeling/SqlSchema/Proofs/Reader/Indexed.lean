import SqlSchema.Proofs.Definition.Destructive
import SqlSchema.Proofs.Reader.Single

/-! Statements that define an index: they are single statements, and the words that open them open no definition of a
table, whatever follows. -/
namespace SqlSchema.Reader
open Text Statement SqlSchema.Tree

namespace Rule

/-! What is read. -/

theorem keeps_createIndex (d : Dialect) : (createIndex d).Keeps (nameQuoting d) := by
  have gap := nameMark_free d
  refine (keeps_keyword d (by decide)).bind fun _ => ((keeps_keyword d (by decide)).optional gap).bind fun _ => ?_
  refine (keeps_keyword d (by decide)).bind fun _ => ((keeps_keyword d (by decide)).optional gap).bind fun _ => ?_
  refine ((keeps_keywords d _ (by decide)).optional gap).bind fun _ => (keeps_indexName d).bind fun _ => ?_
  refine (keeps_keyword d (by decide)).bind fun _ => (keeps_table d).bind fun _ => ?_
  exact ((keeps_usingMethod d).optional gap).bind fun _ => (keeps_columnNames d).bind fun _ => keeps_pure _

/-- The part that all additions end with. -/
theorem keeps_added (d : Dialect) (make : List String → Alteration) :
    (do
      let _ ← optional usingMethod
      let columns ← columnNames d
      let _ ← optional usingMethod
      endOfText
      return make columns : Rule Alteration).Keeps (nameQuoting d) := by
  have method := (keeps_usingMethod d).optional (nameMark_free d)
  exact method.bind fun _ => (keeps_columnNames d).bind fun _ => method.bind fun _ =>
    (keeps_endOfText d).bind fun _ => keeps_pure _

theorem keeps_addPrimaryKey (d : Dialect) : (addPrimaryKey d).Keeps (nameQuoting d) := by
  refine (keeps_keyword d (by decide)).bind fun _ => (Keeps.optional (nameMark_free d) ?_).bind fun name => ?_
  · exact (keeps_keyword d (by decide)).bind fun _ => (keeps_without _ _).bind fun _ => keeps_identifier d
  · exact (keeps_keywords d _ (by decide)).bind fun _ => keeps_added d fun columns =>
      (Action.addPrimaryKey, some ({ name := (givenName? name).getD "PRIMARY", unique := true }, columns))

theorem keeps_addUniqueConstraint (d : Dialect) : (addUniqueConstraint d).Keeps (nameQuoting d) := by
  refine (keeps_keyword d (by decide)).bind fun _ => (keeps_keyword d (by decide)).bind fun _ => ?_
  refine (keeps_identifier d).bind fun name => (keeps_keyword d (by decide)).bind fun _ => ?_
  exact ((keeps_keyWord d).optional (nameMark_free d)).bind fun _ => keeps_added d fun columns =>
    (Action.addIndex, some ({ name, unique := true }, columns))

theorem keeps_addIndex (d : Dialect) : (addIndex d).Keeps (nameQuoting d) := by
  refine (keeps_keyword d (by decide)).bind fun _ => (keeps_choice _ _ ?_).bind fun unique => ?_
  · simp only [List.forall_mem_cons]
    refine ⟨?_, (keeps_keyWord d).bind fun _ => keeps_pure _, List.forall_mem_nil _⟩
    exact (keeps_keyword d (by decide)).bind fun _ =>
      ((keeps_keyWord d).optional (nameMark_free d)).bind fun _ => keeps_pure _
  · exact ((keeps_indexName d).optional (nameMark_free d)).bind fun name => keeps_added d fun columns =>
      (Action.addIndex, some ({ name := name.getD "", unique }, columns))

theorem onto_alteration (d : Dialect) (c after : Cursor) (a : Alteration) (found : (alteration d).Reads c a after)
    (added : a.2.isSome = true) : Onto (nameQuoting d) c after := by
  obtain ⟨r, member, reads⟩ := ((reads_choice ..).mp found).exists_mem
  simp only [List.mem_cons, List.not_mem_nil, or_false] at member
  rcases member with rfl | rfl | rfl | rfl
  · exact keeps_addPrimaryKey d c a after reads
  · exact keeps_addUniqueConstraint d c a after reads
  · exact keeps_addIndex d c a after reads
  · have none : alterOther d |>.Yields fun a => a.2 = none :=
      yields_then _ _ fun _ => yields_then _ _ fun _ => yields_pure _ rfl
    rw [none c a after reads] at added
    cases added

theorem onto_alterTable (d : Dialect) (c after : Cursor) (s : SchemaStatement) (found : (alterTable d).Reads c s after)
    (index : s.index.isSome = true) : Onto (nameQuoting d) c after := by
  obtain ⟨_, altered, alter, rest⟩ := (reads_bind ..).mp found
  obtain ⟨_, opened, word, rest⟩ := (reads_bind ..).mp rest
  obtain ⟨_, only, option, rest⟩ := (reads_bind ..).mp rest
  obtain ⟨table, named, name, rest⟩ := (reads_bind ..).mp rest
  obtain ⟨⟨action, added⟩, last, whole, made⟩ := (reads_bind ..).mp rest
  obtain ⟨rfl, rfl⟩ := (reads_pure ..).mp made
  have front := (keeps_keyword d (by decide) c _ altered alter).trans (keeps_keyword d (by decide) altered _ opened word)
  have middle := ((keeps_keyword d (by decide)).optional (nameMark_free d) opened _ only option).trans
    (keeps_table d only _ named name)
  exact (front.trans middle).trans (onto_alteration d named last _ whole (by simpa using index))

/-- All other statements define no index. -/
theorem indexed_cases (d : Dialect) (c after : Cursor) (s : SchemaStatement) (found : (statement d).Reads c s after)
    (index : s.index.isSome = true) : (createIndex d).Reads c s after ∨ (alterTable d).Reads c s after := by
  have other {r : Rule SchemaStatement} (none : r.Yields fun s => s.index = none) (reads : r.Reads c s after) :
      (createIndex d).Reads c s after ∨ (alterTable d).Reads c s after := by
    rw [none c s after reads] at index
    cases index
  obtain ⟨r, member, reads⟩ := ((reads_choice ..).mp found).exists_mem
  simp only [List.mem_cons, List.not_mem_nil, or_false] at member
  rcases member with rfl | rfl | rfl | rfl | rfl | rfl | rfl | rfl
  · refine other (yields_then _ _ fun _ => yields_then _ _ fun _ => yields_then _ _ fun _ => ?_) reads
    refine yields_then _ _ fun _ => yields_then _ _ fun _ => yields_then _ _ fun _ => ?_
    exact yields_then _ _ fun _ => yields_pure _ rfl
  · exact .inl reads
  · refine other (yields_then _ _ fun _ => yields_then _ _ fun _ => yields_then _ _ fun _ => ?_) reads
    exact yields_then _ _ fun _ => yields_then _ _ fun _ => yields_pure _ rfl
  · exact .inr reads
  · exact other (fun c s after found => (partless_dropTable d c s after found).2) reads
  · exact other (fun c s after found => (partless_dropOther c s after found).2) reads
  · exact other (fun c s after found => (partless_renameTable d c s after found).2) reads
  · exact other (fun c s after found => (partless_truncateTable d c s after found).2) reads

/-- The definition of an index is read to the end of the text. -/
theorem onto_of_indexed {d : Dialect} {cs : List Char} {s : SchemaStatement} {after last : Cursor}
    (reads : (statement d).Reads (Cursor.start cs) s after) (index : s.index.isSome = true)
    (ended : endOfText.Reads after () last) : Onto (nameQuoting d) (Cursor.start cs) last ∧ last.rest = [] := by
  have onto : Onto (nameQuoting d) (Cursor.start cs) last := by
    refine Onto.trans ?_ (keeps_endOfText d after () last ended)
    rcases indexed_cases d _ _ s reads index with created | altered
    · exact keeps_createIndex d _ s after created
    · exact onto_alterTable d _ _ s altered index
  refine ⟨onto, ?_⟩
  have exact := onto.exact (Cursor.exact_start cs)
  obtain ⟨passed, rfl⟩ := (reads_endOfText ..).mp ended
  by_contra more
  have inside := exact.inside more
  have longer := List.length_pos_iff.mpr more
  omega

/-- In a text that is read as the definition of an index, semicolons stand only between the marks of names. -/
theorem single_of_indexed (d : Dialect) (cs : List Char) (s : SchemaStatement) (found : (statement d).readAll cs = .ok s)
    (index : s.index.isSome = true) : Single (nameQuoting d) cs := by
  obtain ⟨after, reads, last, ended⟩ := (readAll_eq_ok ..).mp found
  obtain ⟨onto, nothing⟩ := onto_of_indexed reads index ended
  exact onto.single (nothing ▸ .nil)

/-! How a text opens. -/

theorem visible_skipGap (c : Cursor) : visible c.skipGap.rest = visible c.rest := by
  obtain ⟨gap, split, blank⟩ := c.gap_skipGap
  rw [split, visible_append, visible_of_blank gap fun x member => isBlank_of_isGap x (blank x member), List.nil_append]

/-- What can be seen of a text that a keyword opens. -/
structure Opened (word : String) (cs spelled rest : List Char) : Prop where
  split : visible cs = spelled ++ rest
  upper : upper spelled = word.toList
  /-- A ligature stands for two letters only at the end of the text. -/
  size : rest ≠ [] → spelled.length = word.length

theorem Opened.head? {word : String} {cs spelled rest : List Char} (opened : Opened word cs spelled rest)
    (capital : Capital word) : (Text.upper (visible cs)).head? = word.toList.head? := by
  obtain ⟨letter, others, letters⟩ := List.exists_cons_of_ne_nil capital.1
  have append : Text.upper (spelled ++ rest) = Text.upper spelled ++ Text.upper rest := List.flatMap_append
  rw [opened.split, append, opened.upper, letters]
  rfl

/-- What a keyword is spelled with can be seen. -/
theorem isBlank_of_upper {word : String} (capital : Capital word) {spelled : List Char}
    (same : Text.upper spelled = word.toList) : ∀ x ∈ spelled, isBlank x = false := by
  intro x member
  obtain ⟨letter, others, letters⟩ := List.exists_cons_of_ne_nil (capitals_ne_nil x)
  have inside : letter ∈ word.toList := same ▸ List.mem_flatMap.mpr ⟨x, member, by simp [letters]⟩
  exact not_isBlank_of_capital x letter (by simp [letters]) (capital.isAlpha letter inside)

theorem opened_of_reads_keyword {word : String} (capital : Capital word) {c after : Cursor} {u : Unit}
    (found : (keyword word).Reads c u after) : ∃ spelled, Opened word c.rest spelled (visible after.rest) := by
  obtain ⟨same, _, _, rfl⟩ := (reads_keyword ..).mp found
  rw [upper_of_isUpper word.toList capital.isUpper] at same
  have seen : visible (c.skipGap.rest.take word.length) = c.skipGap.rest.take word.length := by
    rw [visible, List.filter_eq_self]
    intro x member
    simp [isBlank_of_upper capital same x member]
  refine ⟨c.skipGap.rest.take word.length, ?_, same, fun more => ?_⟩
  · rw [← visible_skipGap, ← List.take_append_drop word.length c.skipGap.rest, visible_append, seen,
      List.take_append_drop]
    rfl
  · have longer : (c.skipGap.rest.drop word.length).length ≠ 0 := by
      rw [Ne, List.length_eq_zero_iff]
      rintro none
      exact more (by rw [Cursor.advance, none]; rfl)
    rw [List.length_drop] at longer
    rw [List.length_take]
    omega

/-- Two keywords, perhaps with a third one between them. -/
theorem opened_of_keywords {first other second : String} (capital : Capital first) (choice : Capital other)
    (last : Capital second) {c a b after : Cursor} {u v : Unit} {o : Option Unit}
    (create : (keyword first).Reads c u a) (option : (optional (keyword other)).Reads a o b)
    (word : (keyword second).Reads b v after) :
    ∃ spelled rest, Opened first c.rest spelled rest ∧
      ((Text.upper rest).head? = other.toList.head? ∨ (Text.upper rest).head? = second.toList.head?) := by
  obtain ⟨spelled, opened⟩ := opened_of_reads_keyword capital create
  refine ⟨spelled, _, opened, ?_⟩
  rcases (reads_optional ..).mp option with ⟨_, _, here⟩ | ⟨_, _, rfl⟩
  · obtain ⟨_, chosen⟩ := opened_of_reads_keyword choice here
    exact .inl (chosen.head? choice)
  · obtain ⟨_, behind⟩ := opened_of_reads_keyword last word
    have skipped : visible ((optional (keyword other)).origin a).rest = visible a.rest := visible_skipGap a
    exact .inr (skipped ▸ behind.head? last)

theorem head?_upper_append {front : List Char} {letter : Char} (first : (Text.upper front).head? = some letter)
    (more : List Char) : (Text.upper (front ++ more)).head? = some letter := by
  have append : Text.upper (front ++ more) = Text.upper front ++ Text.upper more := List.flatMap_append
  rw [append, List.head?_append, first, Option.some_or]

theorem ne_nil_of_head?_upper {cs : List Char} {letter : Char} (first : (Text.upper cs).head? = some letter) :
    cs ≠ [] := by
  rintro rfl
  cases first

/-- No text that begins like the definition of an index is read as the definition of a table. -/
theorem not_createTable_of_indexed (d : Dialect) {cs ds : List Char} (begun : visible cs <+: visible ds)
    {s : SchemaStatement} {after : Cursor}
    (indexed : (createIndex d).Reads (Cursor.start cs) s after ∨ (alterTable d).Reads (Cursor.start cs) s after)
    (t : SchemaStatement) (last : Cursor) : ¬ (createTable d).Reads (Cursor.start ds) t last := by
  intro table
  obtain ⟨_, a, create, rest⟩ := (reads_bind ..).mp table
  obtain ⟨_, b, option, rest⟩ := (reads_bind ..).mp rest
  obtain ⟨_, _, word, _⟩ := (reads_bind ..).mp rest
  obtain ⟨spelled, behind, opened, letter⟩ :=
    opened_of_keywords (by decide) (by decide) (by decide) create option word
  obtain ⟨more, whole⟩ := begun
  rcases indexed with index | alteration
  · obtain ⟨_, a, create, rest⟩ := (reads_bind ..).mp index
    obtain ⟨_, b, option, rest⟩ := (reads_bind ..).mp rest
    obtain ⟨_, _, word, _⟩ := (reads_bind ..).mp rest
    obtain ⟨front, left, begun, first⟩ :=
      opened_of_keywords (by decide) (by decide) (by decide) create option word
    have tabled : (Text.upper behind).head? = some 'T' := letter.elim id id
    have filled : left ≠ [] := first.elim ne_nil_of_head?_upper ne_nil_of_head?_upper
    have size := (begun.size filled).trans (opened.size (ne_nil_of_head?_upper tabled)).symm
    have split : visible cs = front ++ left := begun.split
    have parted : visible ds = spelled ++ behind := opened.split
    rw [split, parted, List.append_assoc] at whole
    obtain ⟨_, rfl⟩ := List.append_inj whole size
    rcases first with first | first
    · cases (head?_upper_append first more).symm.trans tabled
    · cases (head?_upper_append first more).symm.trans tabled
  · obtain ⟨_, _, alter, _⟩ := (reads_bind ..).mp alteration
    obtain ⟨front, begun⟩ := opened_of_reads_keyword (by decide) alter
    have first : (Text.upper (visible cs)).head? = some 'A' := begun.head? (by decide)
    have other : (Text.upper (visible ds)).head? = some 'C' := opened.head? (by decide)
    rw [← whole] at other
    cases (head?_upper_append first more).symm.trans other

end Rule
end SqlSchema.Reader
