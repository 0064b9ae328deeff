import SqlSchema.Proofs.Definition.Dialects
import SqlSchema.Proofs.Definition.Untouched
import SqlSchema.Proofs.Reader.Bounds
import SqlSchema.Proofs.Tree.Guarded

/-! Positions of syntax errors. They lie behind the word that opens the statement and in the text, unless the text ends
with a keyword whose letters are drawn together: what the rules count as its letters is then more than there is. -/
namespace SqlSchema.Tree
open Text Attempt

/-- No letters of such a word can be drawn together. -/
theorem length_openingWord {cs : List Char} (known : openingWord cs ∈ schemaWords) :
    (openingWord cs).length = (firstWord cs).length := by
  have spelled : upper (firstWord cs) = (openingWord cs).toList := by rw [openingWord, String.toList_ofList]
  have apart : ∀ word ∈ schemaWords, ∀ entry ∈ longCapitals, ¬ entry.2.map Char.ofNat <:+: word.toList := by
    decide +kernel
  rw [← String.length_toList, ← spelled, length_upper]
  rw [spelled]
  exact apart _ known

theorem opensWith_expandTabs {cs : List Char} (visible : ∀ c, cs.head? = some c → isBlank c = false)
    (known : openingWord cs ∈ schemaWords) : Reader.OpensWith (openingWord cs) (expandTabs cs) := by
  have spelled : upper (firstWord cs) = (openingWord cs).toList := by rw [openingWord, String.toList_ofList]
  have length := length_openingWord known
  obtain ⟨rest, split, parted⟩ := firstWord_split fun c head => visible c (head?_expandTabs visible ▸ head)
  rw [firstWord_expandTabs] at split
  refine ⟨known, ?_, ?_, ?_⟩
  · rw [length, split, List.take_left, spelled]
  · rw [length, split, List.length_append]
    exact Nat.le_add_right ..
  · rw [length, split, List.drop_left]
    exact parted

/-- A statement that a word of the schema opens is rejected where its grammar fails. -/
theorem rejects_ofPlain_iff {d : Dialect} {cs : List Char} (known : openingWord cs ∈ schemaWords) (e : SyntaxError) :
    (ofPlain d cs).Rejects e ↔ ∃ f, (Reader.Rule.statement d).readAll (expandTabs cs) = .error f ∧ expectedAt f = e := by
  unfold ofPlain
  cases cs with
  | nil => exact absurd known (by decide)
  | cons c rest =>
    cases (Reader.Rule.statement d).readAll (expandTabs (c :: rest)) <;> simp [known, Except.mapError, eq_comm]

/-- The position lies behind the first word, and in the text if all letters of its last keyword are written. The message
begins with it. -/
structure Located (cs : List Char) (position : Nat) (message : String) : Prop where
  behind : (firstWord cs).length ≤ position
  within : Reader.Within (expandTabs cs) position
  begins : ("syntax error at position " ++ toString position ++ ": ").toList <+: message.toList

theorem SyntaxError.begins (e : SyntaxError) :
    ("syntax error at position " ++ toString e.position ++ ": ").toList <+: e.message.toList :=
  ⟨e.fault.message.toList, (String.toList_append).symm⟩

theorem located_of_read {d : Dialect} {text : String} {plain : List Char}
    (stripped : Statement.strip d text.toList = .ok plain) (known : openingWord (dropSemicolon plain) ∈ schemaWords)
    {e : SyntaxError} (rejected : (read d text).Rejects e) : Located (dropSemicolon plain) e.position e.message := by
  rw [read_of_strip stripped] at rejected
  obtain ⟨f, failed, rfl⟩ := (rejects_ofPlain_iff known e).mp rejected
  have opens := opensWith_expandTabs (head?_strip stripped) known
  refine ⟨?_, Reader.within_of_readAll failed, SyntaxError.begins _⟩
  rw [← length_openingWord known]
  exact opens.le_of_readAll failed

/-- A rejected statement is rejected at a position behind the word that opens it and, unless letters of its last keyword
are drawn together, in the text. Its message begins with that position, and so does that of its definition. -/
theorem located_of_rejects (d : Dialect) (text : String) (plain : List Char)
    (stripped : Statement.strip d text.toList = .ok plain) (known : openingWord (dropSemicolon plain) ∈ schemaWords) :
    (∀ e, (read d text).Rejects e → Located (dropSemicolon plain) e.position e.message) ∧
      ∀ e statement, (Definition.read d text).Rejects ⟨.syntaxError e, statement⟩ →
        Located (dropSemicolon plain) e.position (StatementError.message ⟨.syntaxError e, statement⟩) := by
  refine ⟨fun e rejected => located_of_read stripped known rejected, fun e statement rejected => ?_⟩
  obtain rfl : statement = text := Definition.statement_of_rejected d text _ rejected
  rcases (Definition.rejects_read_iff ..).mp rejected with ⟨cause, broken, same⟩ | ⟨_, _, _, other⟩ | ⟨s, given, refused⟩
  · cases same
    have located := located_of_read stripped known broken
    refine ⟨located.behind, located.within, located.begins.trans ?_⟩
    rw [StatementError.message, String.toList_append]
    exact List.prefix_append ..
  · cases other
  · rcases Definition.rejects_ofTree given refused with ⟨_, _, other⟩ | other <;> cases other

theorem rejects_of_mapError {d : Dialect} {text : String} {plain : List Char} (position : Nat)
    (stripped : Statement.strip d text.toList = .ok plain) (known : openingWord (dropSemicolon plain) ∈ schemaWords)
    (failed : (((Reader.Rule.statement d).readAll (expandTabs (dropSemicolon plain))).mapError (·.position)).map
      (fun _ => ()) = .error position) : ∃ e, (read d text).Rejects e ∧ e.position = position := by
  rw [read_of_strip stripped]
  cases found : (Reader.Rule.statement d).readAll (expandTabs (dropSemicolon plain)) with
  | ok s =>
    rw [found] at failed
    cases failed
  | error f =>
    rw [found] at failed
    exact ⟨_, (rejects_ofPlain_iff known _).mpr ⟨f, found, rfl⟩, Except.error.inj failed⟩

theorem located_of_rejects_unclosed :
    Statement.strip .mysql "CREATE TABLE t (a int".toList = .ok "CREATE TABLE t (a int".toList ∧
      openingWord "CREATE TABLE t (a int".toList ∈ schemaWords ∧
      ∃ e, (read .mysql "CREATE TABLE t (a int").Rejects e ∧ e.position = 21 ∧
        Located "CREATE TABLE t (a int".toList e.position e.message := by
  have stripped : Statement.strip .mysql "CREATE TABLE t (a int".toList = .ok "CREATE TABLE t (a int".toList :=
    Untouched.strip (by decide +kernel) .mysql
  have known : openingWord (dropSemicolon "CREATE TABLE t (a int".toList) ∈ schemaWords := by decide +kernel
  obtain ⟨e, rejected, position⟩ := rejects_of_mapError 21 stripped known (by decide +kernel)
  exact ⟨stripped, known, e, rejected, position, (located_of_rejects .mysql _ _ stripped known).1 e rejected⟩

/-- A ligature stands for two letters, so what is missing is missed behind the end of the text. -/
theorem not_within_ligature : ¬ ∀ (d : Dialect) (text : String) (plain : List Char) (e : SyntaxError),
    Statement.strip d text.toList = .ok plain → openingWord (dropSemicolon plain) ∈ schemaWords →
      (read d text).Rejects e →
        (firstWord (dropSemicolon plain)).length ≤ e.position ∧
          e.position ≤ (expandTabs (dropSemicolon plain)).length := by
  intro claim
  have stripped : Statement.strip .mysql "CREATE TABLE IF NOT EXIﬆS".toList = .ok "CREATE TABLE IF NOT EXIﬆS".toList :=
    Untouched.strip (by decide +kernel) .mysql
  have known : openingWord (dropSemicolon "CREATE TABLE IF NOT EXIﬆS".toList) ∈ schemaWords := by decide +kernel
  obtain ⟨e, rejected, position⟩ := rejects_of_mapError 26 stripped known (by decide +kernel)
  have size : (expandTabs (dropSemicolon "CREATE TABLE IF NOT EXIﬆS".toList)).length = 25 := by decide +kernel
  have bound := (claim .mysql _ _ e stripped known rejected).2
  rw [position, size] at bound
  exact absurd bound (by decide)

end SqlSchema.Tree
