import SqlSchema.Text.Quoted

/-! Closing a quote. A text whose marks are doubled is closed by the first single mark behind it. -/
namespace SqlSchema.Text

theorem mem_double (mark : Char) (cs : List Char) (c : Char) : c ∈ double mark cs ↔ c ∈ cs := by
  simp only [double, List.mem_flatMap]
  constructor
  · intro holds
    obtain ⟨a, inside, found⟩ := holds
    split at found <;> simp_all
  · intro inside
    refine ⟨c, inside, ?_⟩
    split <;> simp

@[simp] theorem double_mark (mark : Char) (cs : List Char) :
    double mark (mark :: cs) = mark :: mark :: double mark cs := by
  simp [double]

theorem double_of_ne {mark c : Char} (other : c ≠ mark) (cs : List Char) :
    double mark (c :: cs) = c :: double mark cs := by
  simp [double, other]

theorem double_append (mark : Char) (front more : List Char) :
    double mark (front ++ more) = double mark front ++ double mark more := List.flatMap_append

theorem double_of_not_mem {mark : Char} {cs : List Char} (none : mark ∉ cs) : double mark cs = cs := by
  induction cs with
  | nil => rfl
  | cons c rest ih =>
    rw [List.mem_cons, not_or] at none
    have later := ih none.2
    simp only [double, List.flatMap_cons, if_neg (Ne.symm none.1)] at later ⊢
    rw [later]
    rfl

theorem head?_double (mark : Char) (cs : List Char) : (double mark cs).head? = cs.head? := by
  cases cs with
  | nil => rfl
  | cons c rest => by_cases same : c = mark <;> simp [double, same]

/-- Only the marks are doubled, and only marks are taken away again. -/
theorem countP_double (mark : Char) (cs : List Char) :
    (double mark cs).countP (· != mark) = cs.countP (· != mark) := by
  induction cs with
  | nil => rfl
  | cons c rest ih =>
    have split : double mark (c :: rest) = (if c = mark then [c, c] else [c]) ++ double mark rest := rfl
    rw [split, List.countP_append, ih, List.countP_cons]
    by_cases same : c = mark <;> simp [same, Nat.add_comm]

theorem countP_undouble (mark : Char) (cs : List Char) :
    (undouble mark cs).countP (· != mark) = cs.countP (· != mark) := by
  fun_induction undouble mark cs with
  | case1 rest c d both ih => simp [both, ih]
  | case2 rest c d _ ih => rw [List.countP_cons, ih, ← List.countP_cons]
  | case3 => rfl

/-- What keeps quotes from being closed where they should be: backslashes and line ends. -/
def Unbroken (cs : List Char) : Prop := ∀ c ∈ cs, c ≠ '\\' ∧ isLineEnd c = false

namespace Quoting

/-- Backslashes and line ends in the text are ordinary characters between these quotes. -/
def Holds (q : Quoting) (cs : List Char) : Prop :=
  ∀ c ∈ cs, (c = '\\' → q.escape = .nothing) ∧ (isLineEnd c = true → q.oneLine = false)

theorem holds_of_unbroken (q : Quoting) {cs : List Char} (plain : Unbroken cs) : q.Holds cs := by
  intro c member
  obtain ⟨slash, line⟩ := plain c member
  exact ⟨fun same => absurd same slash, fun ends => by rw [line] at ends; contradiction⟩

section Close
variable {q : Quoting} {cs inside after more : List Char}

theorem close_mark (apart : cs.head? ≠ some q.mark) : q.close (q.mark :: cs) = some ([], cs) := by
  cases cs with
  | nil => simp [close]
  | cons d rest =>
    have other : d ≠ q.mark := fun same => apart (congrArg some same)
    simp [close, other]

theorem close_of_not_mem (none : q.mark ∉ cs) : q.close cs = .none := by
  cases found : q.close cs with
  | none => rfl
  | some parts =>
    have split := q.close_append cs parts.1 parts.2 found
    exact absurd (split ▸ by simp) none

/-- A character that neither closes nor protects anything is passed over. -/
theorem close_char {c : Char} (anyLine : q.oneLine = false) (other : c ≠ q.mark) (plain : c ≠ '\\') :
    q.close (c :: cs) = (q.close cs).map fun (inside, after) => (c :: inside, after) := by
  cases cs with
  | nil => simp [close, other]
  | cons d cs => simp [close, other, anyLine, plain]

/-- A longer text changes nothing about a closed quote, unless it goes on with a mark. -/
theorem close_longer (unguarded : q.escape ≠ .quote) (closed : q.close cs = some (inside, after))
    (apart : (after ++ more).head? ≠ some q.mark) : q.close (cs ++ more) = some (inside, after ++ more) := by
  fun_induction Quoting.close q cs generalizing inside after with
  | case2 =>
    cases closed
    exact close_mark apart
  | case5 =>
    cases closed
    exact absurd rfl apart
  | case6 =>
    cases closed
    exact close_mark apart
  | case8 _ _ _ _ _ _ ih | case10 _ _ _ _ _ _ _ _ ih =>
    obtain ⟨⟨later, _⟩, found, same⟩ := Option.map_eq_some_iff.mp closed
    cases same
    have longer := ih found apart
    simp_all [close]
  | case13 c d rest other line any inLine _ ih =>
    obtain ⟨⟨later, _⟩, found, same⟩ := Option.map_eq_some_iff.mp closed
    cases same
    have longer := ih found apart
    rw [List.cons_append] at longer
    simp only [Bool.and_eq_true, beq_iff_eq, decide_eq_true_eq] at any inLine
    simp [close, other, line, any, inLine, unguarded, longer]
  | _ => simp_all [close]

end Close

theorem close_double (q : Quoting) (cs after : List Char) (held : q.Holds cs) (ended : after.head? ≠ some q.mark) :
    q.close (double q.mark cs ++ q.mark :: after) = some (double q.mark cs, after) := by
  induction cs with
  | nil => exact close_mark ended
  | cons c cs ih =>
    obtain ⟨⟨slash, line⟩, more⟩ := List.forall_mem_cons.mp held
    have closed := ih more
    by_cases same : c = q.mark
    · subst same
      rw [double_mark, List.cons_append, List.cons_append, close]
      simp only [if_true, closed]
    · obtain ⟨d, rest, split⟩ : ∃ d rest, double q.mark cs ++ q.mark :: after = d :: rest := by
        cases double q.mark cs <;> simp
      have open_ : ¬ (q.oneLine && isLineEnd c) = true := by
        rw [Bool.and_eq_true]
        rintro ⟨one, ends⟩
        rw [line ends] at one
        contradiction
      have ordinary (e : Escape) (other : e ≠ .nothing) : ¬ (c = '\\' ∧ q.escape = e) := by
        rintro ⟨escape, same⟩
        exact other (same.symm.trans (slash escape))
      have any := ordinary .any (by decide)
      have inLine := ordinary .inLine (by decide)
      have quote := ordinary .quote (by decide)
      rw [double_of_ne same, List.cons_append, split, close]
      rw [split] at closed
      simp [same, open_, any, inLine, quote, closed]

end Quoting

/-! Marks that are told alike whether a backslash protects marks only or any character. -/

/-- Between marks and in front of the rest of a text: no backslash protects a line feed, and one that is protected
itself stands in front of no mark, unless it is the last mark of all. -/
inductive Steady (mark : Char) (rest : List Char) : List Char → Prop
  | nil : Steady mark rest []
  | char {c cs} (other : c ≠ mark) (plain : c ≠ '\\') (more : Steady mark rest cs) : Steady mark rest (c :: cs)
  | twice {cs} (more : Steady mark rest cs) : Steady mark rest (mark :: mark :: cs)
  | escaped {c cs} (inside : c ≠ '\n')
    (guarded : c = '\\' → (∃ d more, cs = d :: more ∧ d ≠ mark) ∨ (cs = [] ∧ mark ∉ rest))
    (more : Steady mark rest cs) : Steady mark rest ('\\' :: c :: cs)

theorem Steady.front {mark : Char} {rest cs : List Char} (front : List Char) (plain : ∀ c ∈ front, c ≠ mark ∧ c ≠ '\\')
    (more : Steady mark rest cs) : Steady mark rest (front ++ cs) := by
  induction front with
  | nil => exact more
  | cons c front ih =>
    obtain ⟨⟨other, plain⟩, later⟩ := List.forall_mem_cons.mp plain
    exact .char other plain (ih later)

theorem Steady.alone {mark : Char} {rest body : List Char} (steady : Steady mark rest body) : Steady mark [] body := by
  induction steady with
  | nil => exact .nil
  | char other plain _ ih => exact .char other plain ih
  | twice _ ih => exact .twice ih
  | escaped inside guarded _ ih =>
    exact .escaped inside (fun slash => (guarded slash).imp_right fun last => ⟨last.1, List.not_mem_nil⟩) ih

namespace Quoting
variable {q : Quoting} {body rest : List Char}

/-- A backslash that is protected does not protect, although it would. -/
theorem close_slash (anyLine : q.oneLine = false) (usual : q.mark ≠ '\\') (escape : q.escape = .quote)
    (guarded : (∃ d more, body = d :: more ∧ d ≠ q.mark) ∨ (body = [] ∧ q.mark ∉ rest))
    (ended : rest.head? ≠ some q.mark) (closed : q.close (body ++ q.mark :: rest) = some (body, rest)) :
    q.close ('\\' :: (body ++ q.mark :: rest)) = some ('\\' :: body, rest) := by
  rcases guarded with ⟨d, more, rfl, apart⟩ | ⟨rfl, none⟩
  · rw [List.cons_append] at closed ⊢
    rw [close]
    simp [anyLine, usual.symm, escape, apart, closed]
  · rw [List.nil_append, close]
    simp [anyLine, usual.symm, escape, close_of_not_mem none, close_mark ended]

theorem close_steady (anyLine : q.oneLine = false) (usual : q.mark ≠ '\\')
    (escape : q.escape = .quote ∨ q.escape = .inLine) (steady : Steady q.mark rest body)
    (ended : rest.head? ≠ some q.mark) : q.close (body ++ q.mark :: rest) = some (body, rest) := by
  induction steady with
  | nil => exact close_mark ended
  | char other plain _ ih =>
    rw [List.cons_append, close_char anyLine other plain, ih]
    rfl
  | twice _ ih =>
    rw [List.cons_append, List.cons_append, close]
    simp [ih]
  | @escaped c cs inside guarded _ ih =>
    rw [List.cons_append, List.cons_append, close]
    rcases escape with quote | inLine
    · by_cases same : c = q.mark
      · subst same
        simp [anyLine, usual.symm, quote, ih]
      · have past : q.close (c :: (cs ++ q.mark :: rest)) = some (c :: cs, rest) := by
          by_cases slash : c = '\\'
          · subst slash
            exact close_slash anyLine usual quote (guarded rfl) ended ih
          · rw [close_char anyLine same slash, ih]
            rfl
        simp [anyLine, usual.symm, quote, same, past]
    · simp [anyLine, usual.symm, inLine, inside, ih]

end Quoting
end SqlSchema.Text
