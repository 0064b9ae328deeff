import SqlSchema.Proofs.Text.Enclosed

/-! The words of a text, as white space parts them. How wide the white space is makes no difference. -/
namespace SqlSchema.Text

/-- The parts of a text between its white space. -/
def words (cs : List Char) : List (List Char) := (cs.splitOnP isBlank).filter (!·.isEmpty)

theorem words_append_cons {b : Char} (blank : isBlank b = true) (front back : List Char) :
    words (front ++ b :: back) = words front ++ words back := by
  rw [words, List.splitOnP_append_cons _ _ blank, List.filter_append]
  rfl

theorem words_of_visible {cs : List Char} (filled : cs ≠ []) (visible : ∀ c ∈ cs, isBlank c = false) :
    words cs = [cs] := by
  rw [words, List.splitOnP_eq_singleton visible]
  exact List.filter_cons_of_pos (by simpa using filled)

theorem words_blank_append {gap : List Char} (blank : ∀ c ∈ gap, isBlank c = true) (cs : List Char) :
    words (gap ++ cs) = words cs := by
  induction gap with
  | nil => rfl
  | cons b gap ih =>
    obtain ⟨here, later⟩ := List.forall_mem_cons.mp blank
    rw [List.cons_append, ← List.nil_append (b :: (gap ++ cs)), words_append_cons here, ih later]
    rfl

/-- White space that is there parts the words in front of it from those behind it. -/
theorem words_append {gap : List Char} (blank : ∀ c ∈ gap, isBlank c = true) (filled : gap ≠ [])
    (front back : List Char) : words (front ++ (gap ++ back)) = words front ++ words back := by
  obtain ⟨b, more, rfl⟩ := List.exists_cons_of_ne_nil filled
  obtain ⟨here, later⟩ := List.forall_mem_cons.mp blank
  rw [List.cons_append, words_append_cons here, words_blank_append later]

theorem words_append_blank (cs : List Char) {gap : List Char} (blank : ∀ c ∈ gap, isBlank c = true) :
    words (cs ++ gap) = words cs := by
  by_cases filled : gap = []
  · rw [filled, List.append_nil]
  · rw [← List.append_nil gap, words_append blank filled]
    exact List.append_nil _

namespace Filled
variable {cs ds : List Char}

/-- The first parts are the same, and so are the words among the others. -/
theorem splitOnP (filled : Filled cs ds) :
    ∃ first more others, cs.splitOnP isBlank = first :: more ∧ ds.splitOnP isBlank = first :: others ∧
      more.filter (!·.isEmpty) = others.filter (!·.isEmpty) := by
  induction filled with
  | nil => exact ⟨[], [], [], rfl, rfl, rfl⟩
  | char c _ ih =>
    obtain ⟨first, more, others, left, right, same⟩ := ih
    rw [List.splitOnP_cons_eq_if_modifyHead, List.splitOnP_cons_eq_if_modifyHead, left, right]
    split
    · exact ⟨[], _, _, rfl, rfl, by rw [List.filter_cons, List.filter_cons, same]⟩
    · exact ⟨c :: first, more, others, rfl, rfl, same⟩
  | @tab cs ds n _ ih =>
    obtain ⟨first, more, others, left, right, same⟩ := ih
    have tab : isBlank '\t' = true := by decide
    have spaces : ∀ c ∈ List.replicate n ' ', isBlank c = true := by
      intro c member
      rw [(List.mem_replicate.mp member).2, isBlank_space]
    refine ⟨[], cs.splitOnP isBlank, (List.replicate n ' ' ++ ds).splitOnP isBlank, ?_, ?_, ?_⟩
    · rw [List.splitOnP_cons_eq_if_modifyHead, if_pos tab]
    · rw [List.replicate_succ, List.cons_append, List.splitOnP_cons_eq_if_modifyHead, if_pos isBlank_space]
    · change words cs = words (List.replicate n ' ' ++ ds)
      rw [words_blank_append spaces, words, words, left, right, List.filter_cons, List.filter_cons, same]

theorem words (filled : Filled cs ds) : Text.words ds = Text.words cs := by
  obtain ⟨first, more, others, left, right, same⟩ := filled.splitOnP
  rw [Text.words, Text.words, left, right, List.filter_cons, List.filter_cons, same]

theorem count_eq (filled : Filled cs ds) {mark : Char} (tab : mark ≠ '\t') (space : mark ≠ ' ') :
    ds.count mark = cs.count mark := by
  induction filled with
  | nil => rfl
  | char c _ ih => rw [List.count_cons, List.count_cons, ih]
  | tab n _ ih =>
    rw [List.count_append, List.count_replicate, ih, List.count_cons_of_ne tab.symm, if_neg (by simpa using space.symm),
      Nat.zero_add]

end Filled

/-! Commas where nothing is between parentheses. -/

theorem cutCommas_eq_splitOn {cs : List Char} (none : '(' ∉ cs ∧ ')' ∉ cs) : cutCommas 0 cs = cs.splitOn ',' := by
  induction cs with
  | nil => rfl
  | cons c rest ih =>
    simp only [List.mem_cons, not_or] at none
    have still : level 0 c = 0 := by rw [level, if_neg (Ne.symm none.1.1), if_neg (Ne.symm none.2.1)]
    have later := ih ⟨none.1.2, none.2.2⟩
    rw [cutCommas, List.splitOn_cons_eq_if_modifyHead, still, later]
    simp

theorem exists_of_upToClosing {n : Nat} {cs inside : List Char} (found : upToClosing n cs = some inside) :
    ∃ back, cs = inside ++ ')' :: back := by
  induction cs generalizing n inside with
  | nil => contradiction
  | cons c rest ih =>
    rw [upToClosing] at found
    split at found
    next last =>
      cases found
      exact ⟨rest, by rw [last.1, List.nil_append]⟩
    next =>
      obtain ⟨later, same, rfl⟩ := Option.map_eq_some_iff.mp found
      obtain ⟨back, rfl⟩ := ih same
      exact ⟨back, rfl⟩

/-- The parentheses stand around what they enclose. -/
theorem exists_of_enclosed {cs inside : List Char} (found : enclosed cs = some inside) :
    ∃ front back, cs = front ++ '(' :: (inside ++ ')' :: back) := by
  obtain ⟨back, closed⟩ := exists_of_upToClosing found
  refine ⟨cs.takeWhile (· != '('), back, ?_⟩
  have opening := List.head?_dropWhile_not (· != '(') cs
  cases opened : cs.dropWhile (· != '(') with
  | nil =>
    rw [opened] at closed
    simp at closed
  | cons c more =>
    rw [opened] at closed opening
    obtain rfl : c = '(' := by simpa using opening
    have whole := List.takeWhile_append_dropWhile (p := (· != '(')) (l := cs)
    rw [List.tail_cons] at closed
    rw [← closed, ← opened, whole]

end SqlSchema.Text
