import SqlSchema.Text.Blank
import SqlSchema.Text.Tabs

/-! Tabs are white space, and so is what they are filled up with: the words of a text stay as they are. -/
namespace SqlSchema.Text

theorem isBlank_space : isBlank ' ' = true := by decide

theorem visible_of_isBlank (c : Char) (filled : isBlank c = false) : c ≠ '\t' ∧ c ≠ '\n' ∧ c ≠ '\r' := by
  refine ⟨?_, ?_, ?_⟩
  all_goals
    intro same
    subst same
    exact absurd filled (by decide)

theorem trimLeft_expandFrom (column : Nat) (cs : List Char) :
    ∃ later, trimLeft (expandFrom column cs) = expandFrom later (trimLeft cs) := by
  induction cs generalizing column with
  | nil => exact ⟨column, rfl⟩
  | cons c rest ih =>
    cases blank : isBlank c with
    | false =>
      have visible := visible_of_isBlank c blank
      refine ⟨column, ?_⟩
      simp [trimLeft, expandFrom, visible, blank]
    | true =>
      have shorter : trimLeft (c :: rest) = trimLeft rest := List.dropWhile_cons_of_pos blank
      rw [shorter, expandFrom]
      split
      · obtain ⟨later, found⟩ := ih (column + (8 - column % 8))
        refine ⟨later, ?_⟩
        rw [← found, trimLeft, trimLeft, List.dropWhile_append_of_pos]
        intro space member
        rw [(List.mem_replicate.mp member).2, isBlank_space]
      · split
        · obtain ⟨later, found⟩ := ih 0
          exact ⟨later, by rw [← found]; exact List.dropWhile_cons_of_pos blank⟩
        · obtain ⟨later, found⟩ := ih (column + 1)
          exact ⟨later, by rw [← found]; exact List.dropWhile_cons_of_pos blank⟩

theorem takeWhile_expandFrom (column : Nat) (cs : List Char) :
    (expandFrom column cs).takeWhile (!isBlank ·) = cs.takeWhile (!isBlank ·) := by
  induction cs generalizing column with
  | nil => rfl
  | cons c rest ih =>
    cases blank : isBlank c with
    | false =>
      have visible := visible_of_isBlank c blank
      simp [expandFrom, visible, blank, ih]
    | true =>
      rw [expandFrom]
      split
      · have width : 8 - column % 8 = (7 - column % 8) + 1 := by omega
        dsimp only
        rw [width, List.replicate_succ]
        simp [blank, isBlank_space]
      · split <;> simp [blank]

theorem head?_expandTabs {cs : List Char} (visible : ∀ c, cs.head? = some c → isBlank c = false) :
    (expandTabs cs).head? = cs.head? := by
  cases cs with
  | nil => rfl
  | cons c rest =>
    have seen := visible_of_isBlank c (visible c rfl)
    simp [expandTabs, expandFrom, seen]

theorem firstWord_expandTabs (cs : List Char) : firstWord (expandTabs cs) = firstWord cs := by
  obtain ⟨later, found⟩ := trimLeft_expandFrom 0 cs
  rw [firstWord, expandTabs, found, takeWhile_expandFrom, firstWord]

end SqlSchema.Text
