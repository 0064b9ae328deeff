import SqlSchema.Proofs.Statement.Sealed
import SqlSchema.Proofs.Tree

/-! A semicolon at the end of a text is no part of its statement. -/
namespace SqlSchema.Tree
open Text Statement

theorem getLast?_trim (cs : List Char) : (trim cs).getLast? = (visible cs).getLast? := by
  rw [← visible_trim]
  cases last : (trim cs).getLast? with
  | none => rw [List.getLast?_eq_none_iff.mp last]; rfl
  | some c =>
    obtain ⟨front, split⟩ := List.getLast?_eq_some_iff.mp last
    have solid : isBlank c = false := by
      have reversed : (trim cs).reverse.head? = some c := List.getLast?_eq_head?_reverse ▸ last
      have seen := List.head?_dropWhile_not isBlank (trimLeft cs).reverse
      rw [trim, trimRight, List.reverse_reverse] at reversed
      simpa only [reversed] using seen
    have own : visible [c] = [c] := by simp [visible, solid]
    rw [split, visible_append, own, List.getLast?_concat]

theorem dropSemicolon_of_last {cs : List Char} (last : cs.getLast? ≠ some ';') : dropSemicolon cs = cs := if_neg last

theorem dropSemicolon_concat (front : List Char) : dropSemicolon (front ++ [';']) = trimRight front := by
  rw [dropSemicolon, if_pos List.getLast?_concat, List.dropLast_concat]

theorem dropSemicolon_trim (text : List Char) {gap : List Char} (blank : ∀ c ∈ gap, isBlank c = true) :
    dropSemicolon (trim (text ++ (gap ++ [';']))) = trim text := by
  have mark : trimLeft [';'] = [';'] := by decide
  obtain ⟨rest, left, white⟩ : ∃ rest, trimLeft (text ++ (gap ++ [';'])) = trimLeft text ++ rest ++ [';'] ∧
      ∀ c ∈ rest, isBlank c = true := by
    unfold trimLeft
    rw [List.dropWhile_append]
    split
    next none =>
      refine ⟨[], ?_, List.forall_mem_nil _⟩
      rw [List.isEmpty_iff.mp none, List.dropWhile_append_of_pos blank]
      exact mark
    next => exact ⟨gap, (List.append_assoc ..).symm, blank⟩
  have ended : trimRight (trimLeft text ++ rest ++ [';']) = trimLeft text ++ rest ++ [';'] :=
    trimRight_eq_self _ fun c last => by
      rw [List.getLast?_concat] at last
      cases last
      decide
  have cut : trimRight (trimLeft text ++ rest) = trimRight (trimLeft text) := by
    rw [trimRight, List.reverse_append, List.dropWhile_append_of_pos fun c member => white c (List.mem_reverse.mp member)]
    rfl
  rw [trim, left, ended, dropSemicolon_concat, cut]
  rfl

theorem strip_semicolon (d : Dialect) {cs : List Char} (unopened : Unopened cs)
    (unsealed : (trim cs).getLast? ≠ some ';') :
    (strip d (cs ++ [';'])).map dropSemicolon = (strip d cs).map dropSemicolon := by
  rcases plainText_semicolon unopened with ⟨same, _⟩ | ⟨text, gap, found, blank, sealed⟩
  · rw [strip, strip, same]
  · have unhashed : '#' ∉ text := fun member => forall_plainText (P := (· ≠ '#')) (by decide)
      (fun c ends => by rintro rfl; exact absurd ends (by decide)) found
      (fun c inside same => unopened.not_mem (by decide) (same ▸ inside)) '#' member rfl
    have unhashed' : '#' ∉ text ++ (gap ++ [';']) := by
      simp only [List.mem_append, List.mem_singleton, not_or]
      exact ⟨unhashed, fun member => absurd (blank '#' member) (by decide), by decide⟩
    have last : (trim text).getLast? ≠ some ';' := by
      rwa [getLast?_trim, visible_plainText_of_unopened unopened found, ← getLast?_trim]
    have whole : dropSemicolon (trim (text ++ (gap ++ [';']))) = dropSemicolon (trim text) := by
      rw [dropSemicolon_trim text blank, dropSemicolon_of_last last]
    rw [strip, strip, found, sealed, Except.map, Except.map, Except.map, Except.map, cutHashes_of_free unhashed,
      cutHashes_of_free unhashed', ite_self, ite_self, whole]

theorem read_eq (d : Dialect) (text : String) :
    read d text = (do
      let plain ← ((Statement.strip d text.toList).map dropSemicolon : Except Interruption (List Char))
      ofPlain d plain) := by
  unfold read
  cases Statement.strip d text.toList <;> rfl

/-- A text without quoted texts and comments reads alike with a semicolon behind it, if it does not end with one already. -/
theorem read_semicolon (d : Dialect) (text : String)
    (unquoted : ∀ c ∈ text.toList, c ∉ ['\x27', '\x22', '\x60', '$', '#']) (undashed : ¬ ['-', '-'] <:+: text.toList)
    (unblocked : ¬ ['/', '*'] <:+: text.toList) (unsealed : (trim text.toList).getLast? ≠ some ';') :
    read d (text ++ ";") = read d text := by
  have whole : (text ++ ";").toList = text.toList ++ [';'] := String.toList_append
  rw [read_eq, read_eq, whole, strip_semicolon d ⟨unquoted, undashed, unblocked⟩ unsealed]

/-- Statements and white space in front of the semicolon, and an error. -/
theorem read_semicolon_spaced :
    (read .mysql "SELECT 1; SELECT 2 \n;").run = (read .mysql "SELECT 1; SELECT 2 \n").run ∧
      (read .postgres "CREATE TABLE;").run = (read .postgres "CREATE TABLE").run := by
  constructor
  · exact congrArg _ (read_semicolon .mysql "SELECT 1; SELECT 2 \n" (by decide) (by decide) (by decide) (by decide))
  · exact congrArg _ (read_semicolon .postgres "CREATE TABLE" (by decide) (by decide) (by decide) (by decide))

end SqlSchema.Tree
