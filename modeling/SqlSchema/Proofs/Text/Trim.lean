import Mathlib.Data.List.DropRight
import Mathlib.Data.List.TakeWhile
import SqlSchema.Text.Blank

/-! Trimming: what is trimmed stays so, and nothing but white space at the ends is lost. -/
namespace SqlSchema.Text

theorem isPrefix_trim (cs : List Char) : trim cs <+: trimLeft cs := List.rdropWhile_prefix _ _

theorem mem_of_mem_trim (cs : List Char) (c : Char) (member : c ∈ trim cs) : c ∈ cs :=
  (List.dropWhile_suffix _).subset ((isPrefix_trim cs).subset member)

theorem isBlank_of_head?_trimLeft (cs : List Char) (c : Char) (first : (trimLeft cs).head? = some c) :
    isBlank c = false := by
  have visible := List.head?_dropWhile_not isBlank cs
  rw [trimLeft] at first
  simpa only [first] using visible

theorem isBlank_of_head?_trim (cs : List Char) (c : Char) (first : (trim cs).head? = some c) : isBlank c = false := by
  obtain ⟨cut, whole⟩ := isPrefix_trim cs
  apply isBlank_of_head?_trimLeft cs c
  rw [← whole, List.head?_append, first]
  rfl

theorem trimLeft_eq_self (cs : List Char) (visible : ∀ c, cs.head? = some c → isBlank c = false) :
    trimLeft cs = cs := by
  cases cs with
  | nil => rfl
  | cons c rest => simp [trimLeft, visible c rfl]

theorem trimRight_eq_self (cs : List Char) (visible : ∀ c, cs.getLast? = some c → isBlank c = false) :
    trimRight cs = cs := by
  cases reversed : cs.reverse with
  | nil => rw [trimRight, reversed, List.reverse_eq_nil_iff.mp reversed, List.dropWhile_nil, List.reverse_nil]
  | cons c rest =>
    have last : cs.getLast? = some c := by rw [List.getLast?_eq_head?_reverse, reversed, List.head?_cons]
    rw [trimRight, reversed, List.dropWhile_cons_of_neg (by simp [visible c last]), ← reversed, List.reverse_reverse]

/-- The text neither begins nor ends with white space. -/
structure Framed (cs : List Char) : Prop where
  filled : cs ≠ []
  first : ∀ c, cs.head? = some c → isBlank c = false
  last : ∀ c, cs.getLast? = some c → isBlank c = false

theorem framed_iff (cs : List Char) :
    Framed cs ↔ cs ≠ [] ∧ cs.head?.any isBlank = false ∧ cs.getLast?.any isBlank = false := by
  constructor
  · rintro ⟨filled, first, last⟩
    refine ⟨filled, ?_, ?_⟩
    · cases head : cs.head? with
      | none => rfl
      | some c => exact first c head
    · cases found : cs.getLast? with
      | none => rfl
      | some c => exact last c found
  · rintro ⟨filled, first, last⟩
    exact ⟨filled, fun c head => by rwa [head] at first, fun c found => by rwa [found] at last⟩

instance (cs : List Char) : Decidable (Framed cs) := decidable_of_iff _ (framed_iff cs).symm

theorem Framed.trim {cs : List Char} (framed : Framed cs) : trim cs = cs := by
  rw [Text.trim, trimLeft_eq_self cs framed.first, trimRight_eq_self cs framed.last]

theorem trim_trim (cs : List Char) : trim (trim cs) = trim cs := by
  have left : trimLeft (trim cs) = trim cs := trimLeft_eq_self _ (isBlank_of_head?_trim cs)
  have right : trimRight (trim cs) = trim cs := List.rdropWhile_idempotent _ _
  rw [trim, left, right]

theorem prefix_firstWord {front cs : List Char} (begun : front <+: cs) : firstWord front <+: firstWord cs := by
  obtain ⟨more, rfl⟩ := begun
  rw [firstWord, firstWord, trimLeft, trimLeft, List.dropWhile_append]
  split
  next blank =>
    rw [List.isEmpty_iff.mp blank]
    exact List.nil_prefix
  next =>
    rw [List.takeWhile_append]
    split
    · exact (List.takeWhile_prefix _).trans (List.prefix_append _ _)
    · exact List.prefix_rfl

theorem firstWord_of_visible {cs : List Char} (visible : ∀ c ∈ cs, isBlank c = false) : firstWord cs = cs := by
  rw [firstWord, trimLeft_eq_self cs fun c head => visible c (List.mem_of_head? head)]
  exact List.takeWhile_eq_self_iff.mpr fun c member => by simp [visible c member]

theorem firstWord_ne_nil {cs : List Char} (filled : cs ≠ []) (visible : ∀ c, cs.head? = some c → isBlank c = false) :
    firstWord cs ≠ [] := by
  obtain ⟨c, rest, rfl⟩ := List.exists_cons_of_ne_nil filled
  have seen := visible c rfl
  rw [firstWord, trimLeft_eq_self _ visible, List.takeWhile_cons_of_pos (by simp [seen])]
  exact List.cons_ne_nil _ _

theorem firstWord_split {cs : List Char} (visible : ∀ c, cs.head? = some c → isBlank c = false) :
    ∃ rest, cs = firstWord cs ++ rest ∧ ∀ c, rest.head? = some c → isBlank c = true := by
  refine ⟨cs.dropWhile (!isBlank ·), ?_, fun c head => ?_⟩
  · rw [firstWord, trimLeft_eq_self cs visible, List.takeWhile_append_dropWhile]
  · have ended := List.head?_dropWhile_not (!isBlank ·) cs
    rw [head] at ended
    simpa using ended

theorem firstWord_firstWord (cs : List Char) : firstWord (firstWord cs) = firstWord cs :=
  firstWord_of_visible fun c member => by simpa using List.mem_takeWhile_imp member

theorem firstWord_blank_append {gap : List Char} (blank : ∀ c ∈ gap, isBlank c = true) (cs : List Char) :
    firstWord (gap ++ cs) = firstWord cs := by
  rw [firstWord, trimLeft, List.dropWhile_append_of_pos blank]
  rfl

/-- White space, or the end of the text, ends its first word. -/
theorem firstWord_append_of_parted {front more : List Char} (filled : firstWord front ≠ [])
    (parted : ∀ c, more.head? = some c → isBlank c = true) : firstWord (front ++ more) = firstWord front := by
  have ended : more.takeWhile (!isBlank ·) = [] := by
    cases more with
    | nil => rfl
    | cons c rest => exact List.takeWhile_cons_of_neg (by simp [parted c rfl])
  have left : (trimLeft front).isEmpty = false := by
    refine Bool.eq_false_iff.mpr fun empty => filled ?_
    rw [firstWord, List.isEmpty_iff.mp empty, List.takeWhile_nil]
  rw [firstWord, trimLeft, List.dropWhile_append, ← trimLeft, left, if_neg Bool.false_ne_true, List.takeWhile_append, ended,
    List.append_nil]
  split
  next all => exact (List.takeWhile_prefix _).eq_of_length all |>.symm
  next => rfl

theorem firstWord_append {w more : List Char} (dense : ∀ c ∈ w, isBlank c = false) (filled : w ≠ [])
    (parted : ∀ c, more.head? = some c → isBlank c = true) : firstWord (w ++ more) = w := by
  have whole := firstWord_of_visible dense
  rw [firstWord_append_of_parted (whole.symm ▸ filled) parted, whole]

/-- What is cut off at the end of a text lies behind what it begins with. -/
theorem split_of_last {front more cs tail : List Char} (whole : cs ++ tail = front ++ more)
    (bound : ∀ l ∈ front.getLast?, l ∉ tail) : ∃ left, cs = front ++ left ∧ more = left ++ tail := by
  rcases List.append_eq_append_iff.mp whole with ⟨beyond, split, rest⟩ | ⟨left, rfl, rfl⟩
  · cases last : beyond.getLast? with
    | none =>
      rw [List.getLast?_eq_none_iff.mp last] at split rest
      exact ⟨[], by rw [split, List.append_nil, List.append_nil], rest.symm⟩
    | some l =>
      have same : front.getLast? = some l := by rw [split, List.getLast?_append, last, Option.some_or]
      have inside : l ∈ tail := rest ▸ List.mem_append_left more (List.mem_of_getLast? last)
      exact absurd inside (bound l same)
  · exact ⟨left, rfl, rfl⟩

end SqlSchema.Text
