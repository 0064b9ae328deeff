import SqlSchema.Proofs.Token.Phrase
import SqlSchema.Token.Lexer

/-! Roles that only single words have. Reserved phrases name changes of the schema, orders and zones, or have no part of
their own; the words that read or change rows, name queries or grant are found in the table of words alone. -/
namespace SqlSchema.Token
open Text

/-- A role of single words, and of no phrase. -/
def isLone : Kind → Bool
  | .keyword .query | .keyword .withClause | .keyword .privilege => true
  | _ => false

/-- What a rule takes is no word of such a role. -/
def Spares (found : Option (Kind × List Char)) : Prop := ∀ token ∈ found, isLone token.1 = false

theorem Spares.orElse {first second : Option (Kind × List Char)} (one : Spares first) (other : Spares second) :
    Spares (first <|> second) := fun token found => (orElse_eq_some found).elim (one token) (other token)

theorem spares_none : Spares none := nofun

theorem spares_some {kind : Kind} (other : isLone kind = false) (after : List Char) : Spares (some (kind, after)) := by
  intro token found
  cases Option.mem_some.mp found
  exact other

theorem spares_map {kind : Kind} (other : isLone kind = false) (after : Option (List Char)) :
    Spares (after.map (kind, ·)) := by
  cases after with
  | none => exact spares_none
  | some cs => exact spares_some other cs

section Rules
variable (before : Option Char) (cs : List Char)

theorem spares_block : Spares (block cs) := by
  unfold block
  split
  · split_ifs <;> exact spares_map rfl _
  · exact spares_none

theorem spares_dollarString : Spares (dollarString before cs) := by
  unfold dollarString
  split
  · split_ifs
    · exact spares_none
    · dsimp only
      split
      · exact spares_map rfl _
      · exact spares_none
  · exact spares_none

theorem spares_line : Spares (line cs) := by
  unfold line
  split
  · split_ifs <;> exact spares_some rfl _
  · split_ifs <;> exact spares_some rfl _
  · exact spares_none

theorem spares_space : Spares (space cs) := by
  unfold space
  split
  · exact spares_some rfl _
  · split_ifs
    · exact spares_some rfl _
    · exact spares_some rfl _
    · exact spares_none
  · exact spares_none

theorem spares_earlyMark : Spares (earlyMark cs) := by
  unfold earlyMark
  split
  · exact spares_some rfl _
  · exact spares_some rfl _
  · exact spares_some rfl _
  · exact spares_none

theorem spares_quoted {kind : Kind} (other : isLone kind = false) (q : Quoting) : Spares (quoted kind q cs) := by
  unfold quoted
  split
  · split_ifs
    · intro token found
      obtain ⟨_, _, rfl⟩ := Option.map_eq_some_iff.mp found
      exact other
    · exact spares_none
  · exact spares_none

theorem spares_percentPlaceholder : Spares (percentPlaceholder cs) := by
  unfold percentPlaceholder
  split
  · split
    · split_ifs
      · exact spares_some rfl _
      · exact spares_none
    · exact spares_none
  · split_ifs
    · exact spares_some rfl _
    · exact spares_none
  · exact spares_none

theorem spares_placeholder : Spares (placeholder before cs) := by
  unfold placeholder
  split
  · exact spares_some rfl _
  · split_ifs
    · exact spares_none
    · exact spares_map rfl _
  · split_ifs
    · exact spares_none
    · exact spares_map rfl _
  · exact spares_percentPlaceholder _

theorem spares_command : Spares (command cs) := by
  unfold command
  split
  · exact spares_map rfl _
  · exact spares_none

theorem spares_markedName : Spares (markedName cs) := by
  have named (c : Char) (rest : List Char) :
      Spares (if isNameStart c then (word? rest).map (.name, ·) else none) := by
    split_ifs
    · exact spares_map rfl _
    · exact spares_none
  unfold markedName
  split
  · exact named _ _
  · exact named _ _
  · exact named _ _
  · exact spares_none

theorem spares_linkedName : Spares (linkedName before cs) := by
  unfold linkedName
  dsimp only
  split_ifs
  · exact spares_some rfl _
  · exact spares_none
  · exact spares_none

theorem spares_hexNumber : Spares (hexNumber cs) := by
  unfold hexNumber
  split
  · split_ifs
    · exact spares_some rfl _
    · exact spares_none
  · exact spares_none

theorem spares_exponentNumber : Spares (exponentNumber cs) := by
  unfold exponentNumber
  dsimp only
  split
  · split
    · split_ifs
      · exact spares_some rfl _
      · exact spares_none
    · exact spares_none
  · exact spares_none

theorem spares_plainNumber : Spares (plainNumber cs) := by
  unfold plainNumber
  exact spares_map rfl _

theorem spares_bracketName : Spares (bracketName before cs) := by
  unfold bracketName
  split
  · split
    · exact spares_none
    · dsimp only
      split
      · exact spares_some rfl _
      · exact spares_none
  · exact spares_none

theorem spares_leadingPhrase : Spares (leadingPhrase cs) := by
  have known : ∀ entry ∈ phrases, isLone entry.1 = false := by decide
  have table : Spares (phrases.findSome? fun entry => (firstPhrase entry.2 cs).map (entry.1, ·)) := by
    intro token found
    obtain ⟨⟨kind, ways⟩, member, hit⟩ := List.exists_of_findSome?_eq_some found
    exact spares_map (known _ member) _ token hit
  exact table.orElse <| (spares_map rfl _).orElse <| (spares_map rfl _).orElse <| (spares_map rfl _).orElse <|
    (spares_map rfl _).orElse <| spares_map rfl _

theorem spares_sign : Spares (sign cs) := by
  unfold sign
  split <;> try exact spares_some rfl _
  · split_ifs
    · exact spares_some rfl _
    · exact spares_some rfl _
    · exact spares_some rfl _
    · exact spares_none
  · exact spares_none

/-- Words of these roles are left to the last rule but one. -/
theorem plainWord_of_leading {kind : Kind} {after : List Char} (lone : isLone kind = true)
    (found : leading before cs = some (kind, after)) : plainWord cs = some (kind, after) := by
  have pass {first more : Option (Kind × List Char)} (spares : Spares first)
      (found : (first <|> more) = some (kind, after)) : more = some (kind, after) := by
    rcases orElse_eq_some found with here | behind
    · exact absurd lone (Bool.eq_false_iff.mp (spares _ here))
    · exact behind
  unfold leading at found
  have found := pass (spares_block cs) found
  have found := pass (spares_dollarString before cs) found
  have found := pass (spares_line cs) found
  have found := pass (spares_space cs) found
  have found := pass (spares_earlyMark cs) found
  have found := pass (spares_quoted cs rfl _) found
  have found := pass (spares_quoted cs rfl _) found
  have found := pass (spares_placeholder before cs) found
  have found := pass (spares_command cs) found
  have found := pass (spares_map rfl _) found
  have found := pass (spares_markedName cs) found
  have found := pass (spares_linkedName before cs) found
  have found := pass (spares_hexNumber cs) found
  have found := pass (spares_exponentNumber cs) found
  have found := pass (spares_plainNumber cs) found
  have found := pass (spares_quoted cs rfl _) found
  have found := pass (spares_quoted cs rfl _) found
  have found := pass (spares_bracketName before cs) found
  have found := pass (spares_leadingPhrase cs) found
  rcases orElse_eq_some found with here | sign
  · exact here
  · exact absurd lone (Bool.eq_false_iff.mp (spares_sign cs _ sign))

end Rules

/-- The table sorts a word of such a role by its capitals. -/
theorem wordKind_of_scanFrom {before : Option Char} {cs : List Char} {t : Token} (member : t ∈ scanFrom before cs)
    (lone : isLone t.kind = true) : wordKind (String.ofList (upper t.text)) = t.kind := by
  fun_induction scanFrom before cs with
  | case1 => exact absurd member List.not_mem_nil
  | case2 before c rest kind after found size text ih =>
    rcases List.mem_cons.mp member with rfl | later
    · cases known : leading before (c :: rest) with
      | none =>
        rw [known] at found
        cases found
        contradiction
      | some token =>
        rw [known, Option.getD_some] at found
        subst found
        have word := plainWord_of_leading _ _ lone known
        rw [plainWord, Option.ite_none_right_eq_some] at word
        obtain ⟨start, word⟩ := word
        have part : isWordPart c = true := by
          rw [List.head?_cons, Option.any_some] at start
          rw [isWordPart, start, Bool.true_or, Bool.true_or]
        simp only [Option.some.injEq, Prod.mk.injEq, List.takeWhile_cons_of_pos part,
          List.dropWhile_cons_of_pos part] at word
        obtain ⟨same, rfl⟩ := word
        have whole : rest.take (rest.length - (rest.dropWhile isWordPart).length) = rest.takeWhile isWordPart := by
          have split := List.takeWhile_append_dropWhile (p := isWordPart) (l := rest)
          have length := congrArg List.length split
          rw [List.length_append] at length
          conv => lhs; rw [← split]
          exact List.take_left' (by rw [split]; omega)
        rw [← same]
        simp only [text, size, whole]
    · exact ih later

theorem mem_queryWords_of_wordKind {word : String} (query : wordKind word = .keyword .query) : word ∈ queryWords := by
  by_contra other
  rw [wordKind, if_neg (mt List.contains_iff_mem.mp other)] at query
  split_ifs at query <;> cases query

theorem eq_with_of_wordKind {word : String} (clause : wordKind word = .keyword .withClause) : word = "WITH" := by
  by_contra other
  rw [wordKind, if_neg other] at clause
  split_ifs at clause <;> cases clause

end SqlSchema.Token
