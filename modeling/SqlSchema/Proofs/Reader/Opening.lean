import SqlSchema.Proofs.Reader.Spelling
import SqlSchema.Reader.Statement

/-! Rules that begin with a keyword. Where none of the keywords stands that a rule may begin with, the rule fails; so
alternatives are told apart by the words that open them. -/
namespace SqlSchema.Reader.Rule

variable {α β : Type} {r : Rule α} {words : List String} {cs rest : List Char}

/-- None of the keywords stands in front. -/
def Foreign (words : List String) (cs : List Char) : Prop := ∀ word ∈ words, (keyword word).Refuses cs

theorem foreign_of_word {other : String} (spoken : Spoken other) (apart : ∀ word ∈ words, Apart word other.toList) :
    Foreign words (' ' :: (other.toList ++ rest)) :=
  fun word member => refuses_keyword_of_word spoken (apart word member)

theorem foreign_of_char {c : Char} (seen : Cursor.isGap c = false) (apart : ∀ word ∈ words, Apart word [c]) :
    Foreign words (c :: rest) :=
  fun word member => refuses_keyword_of_char seen (apart word member)

/-- The rule fails wherever none of the keywords stands. -/
def OpenedBy (words : List String) (r : Rule α) : Prop := ∀ cs, Foreign words cs → r.Refuses cs

theorem openedBy_keyword {word : String} (member : word ∈ words) : (keyword word).OpenedBy words :=
  fun _ foreign => foreign word member

theorem OpenedBy.bind {next : α → Rule β} (opened : r.OpenedBy words) : (r >>= next).OpenedBy words :=
  fun cs foreign => (opened cs foreign).bind

theorem openedBy_keywords {word : String} (member : word ∈ words) (more : List String) :
    (keywords (word :: more)).OpenedBy words :=
  fun cs foreign => refuses_keywords cs (foreign word member)

theorem openedBy_constant {word : String} (member : word ∈ words) (more : List String) (a : α) :
    (constant a (word :: more)).OpenedBy words := (openedBy_keywords member more).bind

theorem openedBy_attributed {word : String} (member : word ∈ words) (more : List String) (make : α → Attribute)
    (r : Rule α) : (attributed make (word :: more) r).OpenedBy words := (openedBy_keywords member more).bind

theorem openedBy_choice (name : Shape) {rules : List (Rule α)} (opened : ∀ r ∈ rules, r.OpenedBy words) :
    (choice name rules).OpenedBy words :=
  fun cs foreign => refuses_choice name rules fun r member => opened r member cs foreign

theorem OpenedBy.optional {next : Option α → Rule β} (opened : r.OpenedBy words)
    (second : (next none).OpenedBy words) : (optional r >>= next).OpenedBy words :=
  fun cs foreign => (opened cs foreign).optional.refuses (second cs foreign)

/-- Alternatives that other words open are passed by. -/
theorem takes_choice_from {name : Shape} {rules : List (Rule α)} {openings : List (List String)} {a : α}
    (opened : List.Forall₂ OpenedBy openings rules) (n : Nat)
    (foreign : ∀ words ∈ openings.take n, Foreign words cs) (taken : Takes (choice name (rules.drop n)) cs a rest) :
    Takes (choice name rules) cs a rest := by
  induction opened generalizing n with
  | nil => simpa using taken
  | @cons words r openings rules here later ih =>
    cases n with
    | zero => exact taken
    | succ n =>
      rw [List.take_succ_cons, List.forall_mem_cons] at foreign
      exact (here cs foreign.1).choice (ih n foreign.2 taken)

theorem refuses_choice_opened {name : Shape} {rules : List (Rule α)} {openings : List (List String)}
    (opened : List.Forall₂ OpenedBy openings rules) (foreign : ∀ words ∈ openings, Foreign words cs) :
    Refuses (choice name rules) cs := by
  apply refuses_choice
  induction opened with
  | nil => simp
  | cons here later ih =>
    rw [List.forall_mem_cons] at foreign ⊢
    exact ⟨here cs foreign.1, ih foreign.2⟩

end SqlSchema.Reader.Rule
