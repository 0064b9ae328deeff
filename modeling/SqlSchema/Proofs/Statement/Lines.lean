import SqlSchema.Statement.Lines

/-! Tidy lines. A text of one line only loses the white space at its end. -/
namespace SqlSchema.Statement
open Text

/-! Lines character by character. -/

section Step
variable (current : List Char) {c : Char} {rest : List Char}

theorem linesFrom_ends (ends : isLineEnd c = true) (single : c = '\r' → rest.head? ≠ some '\n') :
    linesFrom current (c :: rest) = current.reverse :: linesFrom [] rest := by
  have apart : ∀ more, c = '\r' → rest = '\n' :: more → False := by
    rintro more turn rfl
    exact single turn rfl
  rw [linesFrom.eq_3 current c rest apart, if_pos ends]

variable (rest) in
theorem linesFrom_char (inline : isLineEnd c = false) (plain : c ≠ '\x27' ∧ c ≠ '\x22') :
    linesFrom current (c :: rest) = linesFrom (c :: current) rest := by
  have apart : ∀ more, c = '\r' → rest = '\n' :: more → False := by
    rintro more rfl _
    exact absurd inline (by decide)
  rw [linesFrom.eq_3 current c rest apart, if_neg (by simp [inline]), if_neg (by simp [plain])]

theorem linesFrom_closed {inside after : List Char} (quote : c = '\x27' ∨ c = '\x22')
    (closed : Quoting.close ⟨c, .inLine, false⟩ rest = some (inside, after)) :
    linesFrom current (c :: rest) = linesFrom (c :: (c :: inside).reverse ++ current) after := by
  have inline : isLineEnd c = false := by rcases quote with rfl | rfl <;> rfl
  have apart : ∀ more, c = '\r' → rest = '\n' :: more → False := by
    rintro more rfl _
    exact absurd inline (by decide)
  rw [linesFrom.eq_3 current c rest apart, if_neg (by simp [inline]), if_pos quote]
  split
  next found =>
    cases closed.symm.trans found
    rfl
  next missed =>
    rw [closed] at missed
    contradiction

variable (rest) in
theorem linesFrom_append (front : List Char) (plain : ∀ c ∈ front, isLineEnd c = false ∧ c ≠ '\x27' ∧ c ≠ '\x22') :
    linesFrom current (front ++ rest) = linesFrom (front.reverse ++ current) rest := by
  induction front generalizing current with
  | nil => rfl
  | cons c front ih =>
    obtain ⟨⟨inline, unquoted⟩, later⟩ := List.forall_mem_cons.mp plain
    rw [List.cons_append, linesFrom_char current _ inline unquoted, ih _ later]
    simp

end Step

theorem linesFrom_of_one_line (current cs : List Char) (single : ∀ c ∈ cs, isLineEnd c = false) :
    linesFrom current cs = [current.reverse ++ cs] := by
  fun_induction linesFrom current cs with
  | case1 current => rw [List.append_nil]
  | case2 current rest ih => exact absurd (single '\r' (List.mem_cons_self ..)) (by decide)
  | case3 current c rest _ ends ih =>
    rw [single c (List.mem_cons_self ..)] at ends
    contradiction
  | case4 current c rest _ _ _ inside after closed ih =>
    have split : rest = inside ++ c :: after := Quoting.close_append _ _ _ _ closed
    rw [ih fun d member => single d (by simp [split, member]), split]
    simp
  | case5 current c rest _ _ _ _ ih | case6 current c rest _ _ _ ih =>
    rw [ih fun d member => single d (List.mem_cons_of_mem _ member)]
    simp

theorem tidyLines_of_one_line (cs : List Char) (single : ∀ c ∈ cs, isLineEnd c = false) :
    tidyLines cs = trimRight cs := by
  rw [tidyLines, linesFrom_of_one_line [] cs single]
  simp

end SqlSchema.Statement
