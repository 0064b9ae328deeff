import SqlSchema.Proofs.Definition
import SqlSchema.Proofs.Tree

/-! Statements that destroy. A text whose first word drops, renames or truncates can only be read by rules whose
actions are not supported, so it never defines anything. -/
namespace SqlSchema
open Text Attempt Reader

namespace Reader.Rule
open SqlSchema.Tree

/-- A statement that defines nothing. -/
def Partless (s : SchemaStatement) : Prop := s.body = none ∧ s.index = none

theorem partless_dropTable (d : Dialect) : (dropTable d).Yields Partless := by
  refine yields_then _ _ fun _ => yields_then _ _ fun _ => yields_then _ _ fun _ => yields_then _ _ fun _ => ?_
  exact yields_then _ _ fun tables => yields_then _ _ fun _ => yields_pure _ ⟨rfl, rfl⟩

theorem partless_dropOther : dropOther.Yields Partless :=
  yields_then _ _ fun _ => yields_then _ _ fun _ => yields_then _ _ fun _ => yields_pure _ ⟨rfl, rfl⟩

theorem partless_renameTable (d : Dialect) : (renameTable d).Yields Partless := by
  refine yields_then _ _ fun _ => yields_then _ _ fun _ => yields_then _ _ fun table => yields_then _ _ fun _ => ?_
  exact yields_pure _ ⟨rfl, rfl⟩

theorem partless_truncateTable (d : Dialect) : (truncateTable d).Yields Partless := by
  refine yields_then _ _ fun _ => yields_then _ _ fun _ => yields_then _ _ fun table => yields_then _ _ fun _ => ?_
  exact yields_pure _ ⟨rfl, rfl⟩

/-- A rule that begins with a keyword reads only texts whose first word begins with its first letter. -/
theorem head?_firstWord_of_reads {α : Type} (word : String) (next : Unit → Rule α) (c after : Cursor) (a : α)
    (capital : Capital word) (found : (keyword word >>= next).Reads c a after) :
    (upper (firstWord c.rest)).head? = word.toList.head? := by
  obtain ⟨_, _, read, _⟩ := (reads_bind ..).mp found
  obtain ⟨same, _⟩ := (reads_keyword ..).mp read
  rw [upper_of_isUpper word.toList capital.isUpper] at same
  have head := congrArg List.head? same
  rw [head?_upper_take _ _ capital.length_pos, Cursor.skipGap_rest] at head
  obtain ⟨letter, letters, spelled⟩ := List.exists_cons_of_ne_nil capital.1
  have high : letter.isAlpha = true := capital.isAlpha letter (by simp [spelled])
  rw [spelled, List.head?_cons] at head ⊢
  cases split : c.rest.dropWhile Cursor.isGap with
  | nil =>
    rw [split] at head
    contradiction
  | cons first more =>
    rw [split, upper, List.flatMap_cons, List.head?_append_of_ne_nil _ (capitals_ne_nil first)] at head
    have visible := not_isBlank_of_capital first letter head high
    have trimmed : trimLeft c.rest = first :: more := by
      rw [trimLeft, ← List.takeWhile_append_dropWhile (p := Cursor.isGap) (l := c.rest), split,
        List.dropWhile_append_of_pos fun g member => Tree.isBlank_of_isGap g (List.mem_takeWhile_imp member),
        List.dropWhile_cons_of_neg (by simp [visible])]
    rw [firstWord, trimmed, List.takeWhile_cons_of_pos (by simp [visible]), upper, List.flatMap_cons,
      List.head?_append_of_ne_nil _ (capitals_ne_nil first), head]

/-- What is read and begins neither like CREATE nor like ALTER defines nothing. -/
theorem partless_of_reads (d : Dialect) (c after : Cursor) (s : SchemaStatement) (found : (statement d).Reads c s after)
    (other : (upper (firstWord c.rest)).head? ≠ some 'C' ∧ (upper (firstWord c.rest)).head? ≠ some 'A') :
    Partless s := by
  obtain ⟨r, member, reads⟩ := ((reads_choice ..).mp found).exists_mem
  simp only [List.mem_cons, List.not_mem_nil, or_false] at member
  rcases member with rfl | rfl | rfl | rfl | rfl | rfl | rfl | rfl
  · exact absurd (head?_firstWord_of_reads "CREATE" _ c after s (by decide) reads) other.1
  · exact absurd (head?_firstWord_of_reads "CREATE" _ c after s (by decide) reads) other.1
  · exact absurd (head?_firstWord_of_reads "CREATE" _ c after s (by decide) reads) other.1
  · exact absurd (head?_firstWord_of_reads "ALTER" _ c after s (by decide) reads) other.2
  · exact partless_dropTable d c s after reads
  · exact partless_dropOther c s after reads
  · exact partless_renameTable d c s after reads
  · exact partless_truncateTable d c s after reads

end Reader.Rule

namespace Definition

def destructiveWords : List String := ["DROP", "RENAME", "TRUNCATE"]

/-- Without comments, the first word of the text is a destructive one, in either case. -/
def Destroys (d : Dialect) (text : String) : Prop :=
  ∃ plain, Statement.strip d text.toList = .ok plain ∧ Tree.openingWord plain ∈ destructiveWords

theorem not_gives_of_partless (text : String) (s : Tree.SchemaStatement) (partless : Rule.Partless s)
    (definition : Definition) : ¬ (ofTree text s).Gives definition := by
  intro given
  cases decoded_of_ofTree text s definition given with
  | table filled =>
    rw [partless.1] at filled
    contradiction
  | index _ decoded =>
    rw [partless.2] at decoded
    exact absurd decoded (gives_throw _ _)

/-- What destroys is never read as a definition. -/
theorem not_gives_of_destroys (d : Dialect) (text : String) (destroys : Destroys d text) (definition : Definition) :
    ¬ (read d text).Gives definition := by
  intro given
  obtain ⟨s, parsed, given⟩ := (gives_read_iff ..).mp given
  obtain ⟨plain, stripped, known, found⟩ := (Tree.gives_schema_iff d text s).mp parsed
  obtain ⟨other, same, word⟩ := destroys
  cases stripped.symm.trans same
  obtain ⟨after, reads, _⟩ := (Rule.readAll_eq_ok ..).mp found
  refine not_gives_of_partless text s (Rule.partless_of_reads d _ after s reads ?_) definition given
  -- Only the end of the text is lost with a semicolon, so its first word still begins with the same letter.
  have begun := prefix_upper (prefix_firstWord (Tree.prefix_dropSemicolon plain))
  have letters : (upper (firstWord (Tree.dropSemicolon plain))).head? = (upper (firstWord plain)).head? := by
    obtain ⟨more, split⟩ := begun
    rw [← split, List.head?_append_of_ne_nil]
    intro empty
    rw [Tree.openingWord, empty] at known
    exact absurd known (by decide)
  have heads : ∀ word ∈ destructiveWords, word.toList.head? ≠ some 'C' ∧ word.toList.head? ≠ some 'A' := by decide
  have head := heads _ word
  rw [Tree.openingWord, String.toList_ofList] at head
  change (upper (firstWord (expandTabs _))).head? ≠ _ ∧ (upper (firstWord (expandTabs _))).head? ≠ _
  rwa [firstWord_expandTabs, letters]

end Definition
end SqlSchema
