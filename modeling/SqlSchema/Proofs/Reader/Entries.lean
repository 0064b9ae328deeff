import SqlSchema.Proofs.Reader.Indexed
import SqlSchema.Proofs.Reader.Passed
import SqlSchema.Proofs.Text.Words

/-! What statements about indexes pass over. Between their only parentheses commas part the columns, and a column is a
name with at most a direction behind it. -/
namespace SqlSchema.Reader
open Text Statement SqlSchema.Tree

/-- The words of a text are the name and perhaps a direction. -/
def Entry (name : String) (cs : List Char) : Prop :=
  words cs = [name.toList] ∨ ∃ way, words cs = [name.toList, way] ∧ String.ofList (upper way) ∈ ["ASC", "DESC"]

theorem Gap.isBlank {gap : List Char} (blank : Gap gap) (c : Char) (member : c ∈ gap) : isBlank c = true :=
  isBlank_of_isGap c (blank c member)

namespace Rule

/-- What the entry of a column passes over. -/
def EntryText (name : String) (cs : List Char) : Prop := Flat cs ∧ Entry name cs

theorem EntryText.append_gap (name : String) (cs gap : List Char) (text : EntryText name cs) (blank : Gap gap) :
    EntryText name (cs ++ gap) := by
  refine ⟨text.1.append blank.flat, ?_⟩
  rw [Entry, words_append_blank cs blank.isBlank]
  exact text.2

theorem EntryText.sealed (name : String) (cs : List Char) (text : EntryText name cs) : Sealed false cs :=
  text.1.sealed false

/-- A direction is a word of its own, and only a gap follows if it is missing. -/
theorem passes_direction {c after : Cursor} {way : Option Unit} (bare : Bare c.rest)
    (torn : c.previous.any touchesKeyword = true) (found : direction.Reads c way after) :
    ∃ passed, c.rest = passed ++ after.rest ∧ Flat passed ∧
      (Gap passed ∨ ∃ gap word, passed = gap ++ word ∧ Gap gap ∧ gap ≠ [] ∧ words word = [word] ∧
        String.ofList (upper word) ∈ ["ASC", "DESC"]) := by
  obtain ⟨gap, split, blank⟩ := c.gap_skipGap
  rcases (reads_optional ..).mp found with ⟨_, rfl, given⟩ | ⟨rfl, _, rfl⟩
  · obtain ⟨r, member, reads⟩ := ((reads_choice ..).mp given).exists_mem
    have spelled : ∃ word, word ∈ ["ASC", "DESC"] ∧ (keyword word).Reads c () after := by
      rw [List.mem_cons, List.mem_singleton] at member
      rcases member with rfl | rfl
      · exact ⟨_, by simp, reads⟩
      · exact ⟨_, by simp, reads⟩
    obtain ⟨word, known, reads⟩ := spelled
    have plain : ∀ word ∈ ["ASC", "DESC"], Capital word ∧ Flat (upper word.toList) := by decide +kernel
    obtain ⟨capital, flat⟩ := plain word known
    obtain ⟨passed, whole, level⟩ := flat_keyword word flat c () after bare reads
    obtain ⟨same, free, _, rfl⟩ := (reads_keyword ..).mp reads
    rw [upper_of_isUpper word.toList capital.isUpper] at same
    refine ⟨passed, whole, level, .inr ⟨gap, c.skipGap.rest.take word.length, ?_, blank, ?_, ?_, ?_⟩⟩
    · have parts := List.take_append_drop word.length c.skipGap.rest
      rw [split, ← parts, Cursor.advance, ← List.append_assoc] at whole
      exact (List.append_cancel_right whole).symm
    -- The name in front of the direction ends where a keyword cannot begin.
    · rintro rfl
      have still : c.skipGap = c := by
        have none : c.rest.takeWhile Cursor.isGap = [] := by
          rw [List.nil_append, Cursor.skipGap_rest] at split
          have whole := List.takeWhile_append_dropWhile (p := Cursor.isGap) (l := c.rest)
          rw [← split] at whole
          exact List.append_left_eq_self.mp whole
        rw [Cursor.skipGap, none]
        exact c.advance_zero
      rw [still, torn] at free
      contradiction
    · refine words_of_visible (fun none => ?_) (isBlank_of_upper capital same)
      rw [none] at same
      exact capital.1 same.symm
    · rw [same, String.ofList_toList]
      exact known
  · exact ⟨gap, split, blank.flat, .inl blank⟩

theorem passes_entry (d : Dialect) : (do
    let name ← identifier d
    let _ ← direction
    return name : Rule String).Passes EntryText := by
  intro c _ last bare found
  obtain ⟨name, named, head, found⟩ := (reads_bind ..).mp found
  obtain ⟨_, _, way, found⟩ := (reads_bind ..).mp found
  obtain ⟨rfl, rfl⟩ := (reads_pure ..).mp found
  obtain ⟨gap, split, blank, filled, parts, _, torn⟩ := reads_identifier bare head
  obtain ⟨passed, rest, flat, behind⟩ := passes_direction (bare.behind split) torn way
  have visible (x : Char) (member : x ∈ name.toList) : isBlank x = false := isBlank_of_isNamePart x (parts x member)
  refine ⟨gap ++ (name.toList ++ passed), by rw [split, rest]; simp, ?_, ?_⟩
  · exact blank.flat.append ((flat_of_isNamePart parts).append flat)
  · rw [Entry, words_blank_append blank.isBlank]
    rcases behind with space | ⟨space, word, rfl, space_blank, apart, single, known⟩
    · exact .inl (by rw [words_append_blank _ space.isBlank, words_of_visible filled visible])
    · refine .inr ⟨word, ?_, known⟩
      rw [words_append space_blank.isBlank apart, words_of_visible filled visible, single]
      rfl

theorem passes_columnNames (d : Dialect) : (columnNames d).Passes fun names => Amid (Listed EntryText names) := by
  refine (passes_parenthesized_listOf EntryText.append_gap (passes_entry d)).mono fun names cs text => ?_
  obtain ⟨gap, list, rfl, blank, listed⟩ := text
  exact ⟨gap, list, [], rfl, blank.flat, flat_nil, listed⟩

theorem passes_createIndex (d : Dialect) :
    (createIndex d).Passes fun s => Amid (Listed EntryText s.indexColumns) := by
  have name : (indexName d).Over Flat := joins_flat.bind (joins_flat.without _ _) fun _ => flat_identifier d
  refine Passes.behind (flat_keyword _ (by decide)) fun _ => ?_
  refine Passes.behind (joins_flat.optional (flat_keyword _ (by decide))) fun _ => ?_
  refine Passes.behind (flat_keyword _ (by decide)) fun _ => ?_
  refine Passes.behind (joins_flat.optional (flat_keyword _ (by decide +kernel))) fun _ => ?_
  refine Passes.behind (joins_flat.optional (flat_keywords _ (by decide))) fun _ => ?_
  refine Passes.behind name fun _ => Passes.behind (flat_keyword _ (by decide)) fun _ => ?_
  refine Passes.behind (flat_table d) fun _ => Passes.behind (joins_flat.optional flat_usingMethod) fun _ => ?_
  exact (passes_columnNames d).map fun _ _ text => text

/-- What an alteration passes over if it adds an index. -/
def AddedText (a : Alteration) (cs : List Char) : Prop := ∀ added ∈ a.2, Amid (Listed EntryText added.2) cs

theorem flat_endOfText : endOfText.Over Flat := by
  intro c u after _ found
  obtain ⟨_, rfl⟩ := (reads_endOfText ..).mp found
  obtain ⟨gap, split, blank⟩ := c.gap_skipGap
  exact ⟨gap, split, blank.flat⟩

theorem AddedText.behind {r : Rule α} {next : α → Rule Alteration} (first : r.Over Flat)
    (second : ∀ a, (next a).Passes AddedText) : (r >>= next).Passes AddedText :=
  Passes.bind first second fun _ _ _ _ flat text added given => (text added given).behind flat

/-- The part that all additions end with. -/
theorem passes_added (d : Dialect) (action : String) (spec : IndexSpec) :
    (do
      let _ ← optional usingMethod
      let columns ← columnNames d
      let _ ← optional usingMethod
      endOfText
      return (action, some (spec, columns)) : Rule Alteration).Passes AddedText := by
  have level {β : Type} {r : Rule β} {next : β → Rule Alteration} {made : Alteration} (first : r.Over Flat)
      (second : ∀ b, (next b).Passes fun a cs => a = made ∧ Flat cs) :
      (r >>= next).Passes fun a cs => a = made ∧ Flat cs :=
    Passes.bind first second fun _ _ _ _ flat both => ⟨both.1, flat.append both.2⟩
  have method := joins_flat.optional flat_usingMethod
  refine AddedText.behind method fun _ => ?_
  refine Passes.bind (passes_columnNames d) (fun columns => level method fun _ => level flat_endOfText fun _ =>
    passes_pure (action, some (spec, columns)) ⟨rfl, flat_nil⟩) fun columns a front more text both added given => ?_
  obtain ⟨rfl, flat⟩ := both
  cases given
  exact text.append flat

theorem flat_keyWord : keyWord.Over Flat := by
  apply passes_choice
  simp only [List.forall_mem_cons]
  exact ⟨flat_constant _ _ (by decide), flat_constant _ _ (by decide +kernel), List.forall_mem_nil _⟩

theorem passes_addPrimaryKey (d : Dialect) : (addPrimaryKey d).Passes AddedText := by
  refine AddedText.behind (flat_keyword _ (by decide)) fun _ => AddedText.behind (joins_flat.optional ?_) fun _ => ?_
  · exact joins_flat.bind (flat_keyword _ (by decide)) fun _ => joins_flat.bind (joins_flat.without _ _) fun _ =>
      flat_identifier d
  · exact AddedText.behind flat_primaryKey fun _ => passes_added d _ _

theorem passes_addUniqueConstraint (d : Dialect) : (addUniqueConstraint d).Passes AddedText := by
  refine AddedText.behind (flat_keyword _ (by decide)) fun _ => AddedText.behind (flat_keyword _ (by decide)) fun _ => ?_
  refine AddedText.behind (flat_identifier d) fun name => AddedText.behind (flat_keyword _ (by decide)) fun _ => ?_
  exact AddedText.behind (joins_flat.optional flat_keyWord) fun _ => passes_added d _ _

theorem passes_addIndex (d : Dialect) : (addIndex d).Passes AddedText := by
  refine AddedText.behind (flat_keyword _ (by decide)) fun _ => AddedText.behind (passes_choice _ _ ?_) fun unique => ?_
  · simp only [List.forall_mem_cons]
    refine ⟨?_, joins_flat.bind flat_keyWord fun _ => joins_flat.pure _, List.forall_mem_nil _⟩
    exact joins_flat.bind (flat_keyword _ (by decide)) fun _ =>
      joins_flat.bind (joins_flat.optional flat_keyWord) fun _ => joins_flat.pure _
  · have name : (indexName d).Over Flat := joins_flat.bind (joins_flat.without _ _) fun _ => flat_identifier d
    exact AddedText.behind (joins_flat.optional name) fun _ => passes_added d _ _

/-- Any other alteration adds nothing, whatever it passes over. -/
theorem passes_alterOther (d : Dialect) : (alterOther d).Passes AddedText := by
  have bare : rest.Passes fun _ _ => True :=
    (passes_recognised (P := fun _ _ => True) _ _ fun _ _ _ _ _ => trivial).mono fun _ _ _ => trivial
  have nothing {β : Type} {r : Rule β} {next : β → Rule Alteration} {P : β → List Char → Prop} (first : r.Passes P)
      (second : ∀ b, (next b).Passes fun a _ => a.2 = none) : (r >>= next).Passes fun a _ => a.2 = none :=
    Passes.bind first second fun _ _ _ _ _ missing => missing
  refine (nothing (passes_without _ _) fun _ => nothing bare fun _ => passes_pure _ rfl).mono ?_
  intro a _ missing added given
  rw [missing] at given
  cases given

theorem passes_alteration (d : Dialect) : (alteration d).Passes AddedText := by
  apply passes_choice
  simp only [List.forall_mem_cons]
  exact ⟨passes_addPrimaryKey d, passes_addUniqueConstraint d, passes_addIndex d, passes_alterOther d,
    List.forall_mem_nil _⟩

/-- What a statement that defines an index passes over. -/
def IndexText (s : SchemaStatement) (cs : List Char) : Prop :=
  s.index.isSome = true → Amid (Listed EntryText s.indexColumns) cs

theorem passes_alterTable (d : Dialect) : (alterTable d).Passes IndexText := by
  have behind {α : Type} {r : Rule α} {next : α → Rule SchemaStatement} (first : r.Over Flat)
      (second : ∀ a, (next a).Passes IndexText) : (r >>= next).Passes IndexText :=
    Passes.bind first second fun _ _ _ _ flat text index => (text index).behind flat
  refine behind (flat_keyword _ (by decide)) fun _ => behind (flat_keyword _ (by decide)) fun _ => ?_
  refine behind (joins_flat.optional (flat_keyword _ (by decide))) fun _ => behind (flat_table d) fun _ => ?_
  refine (passes_alteration d).map fun a cs text index => ?_
  obtain ⟨action, _ | ⟨spec, columns⟩⟩ := a
  · cases index
  · exact text _ rfl

/-- In a text that defines an index and quotes nothing, the columns stand between the only parentheses. -/
theorem amid_of_indexed {d : Dialect} {cs : List Char} {s : SchemaStatement} (bare : Bare cs)
    (found : (statement d).readAll cs = .ok s) (index : s.index.isSome = true) :
    Amid (Listed EntryText s.indexColumns) cs := by
  obtain ⟨after, reads, last, ended⟩ := (readAll_eq_ok ..).mp found
  have passed : ∃ passed, cs = passed ++ after.rest ∧ Amid (Listed EntryText s.indexColumns) passed := by
    rcases indexed_cases d _ _ s reads index with created | altered
    · exact passes_createIndex d _ s after bare created
    · obtain ⟨passed, split, text⟩ := passes_alterTable d _ s after bare altered
      exact ⟨passed, split, text index⟩
  obtain ⟨passed, split, text⟩ := passed
  obtain ⟨gap, rest, flat⟩ := flat_endOfText after () last (bare.behind split) ended
  rw [(onto_of_indexed reads index ended).2, List.append_nil] at rest
  rw [split, rest]
  exact text.append flat

end Rule
end SqlSchema.Reader
