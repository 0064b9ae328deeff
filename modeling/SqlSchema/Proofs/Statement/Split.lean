import Mathlib.Data.List.Chain
import SqlSchema.Statement.Nesting
import SqlSchema.Statement.Split

/-! Cutting tokens into statements. The statements are parts of the tokens one behind the other, and they end where a
semicolon or a batch separator stands. -/
namespace SqlSchema.Statement
open Token

/-- Tokens behind which a statement may end. -/
def ends (t : Token) : Bool := t.isMark ';' || (t.kind == .keyword .general && Text.firstWord t.text == ['G', 'O'])

theorem ended_afterKeyword (s : Depth) (role : Role) (word : List Char) :
    (s.afterKeyword role word).ended = s.ended := by
  unfold Depth.afterKeyword
  dsimp only
  repeat' split
  all_goals rfl

theorem ended_change (s : Depth) (t : Token) : (s.change t).ended = s.ended := by
  unfold Depth.change
  split
  · exact ended_afterKeyword ..
  · split_ifs <;> rfl

theorem ended_next (s : Depth) (t : Token) (ended : (s.next t).ended = true) : s.ended = true ∨ ends t = true := by
  unfold Depth.next Depth.close at ended
  split at ended
  next mark => exact .inr (by simp [ends, mark])
  next =>
    split at ended
    next go => exact .inr (by simp_all [ends])
    next =>
      left
      rw [← ended_change s t]
      split at ended <;> exact ended

/-- Nothing is lost but white space at the end. -/
theorem flatten_splitFrom (s : Depth) (current tokens : List Token) :
    ∃ blanks : List Token, (∀ t ∈ blanks, t.isSpace = true) ∧
      (splitFrom s current tokens).flatten ++ blanks = current.reverse ++ tokens := by
  induction tokens generalizing s current with
  | nil =>
    rw [splitFrom]
    split
    next all =>
      refine ⟨current.reverse, fun t member => List.all_eq_true.mp all t (List.mem_reverse.mp member), ?_⟩
      rw [List.flatten_nil, List.nil_append, List.append_nil]
    next => exact ⟨[], List.forall_mem_nil _, by rw [List.flatten_singleton]⟩
  | cons t rest ih =>
    rw [splitFrom]
    split
    · obtain ⟨blanks, space, whole⟩ := ih (({} : Depth).next t) [t]
      refine ⟨blanks, space, ?_⟩
      rw [List.flatten_cons, List.append_assoc, whole]
      rfl
    · obtain ⟨blanks, space, whole⟩ := ih (s.next t) (t :: current)
      refine ⟨blanks, space, ?_⟩
      rw [whole, List.reverse_cons, List.append_assoc]
      rfl

theorem flatten_split {tokens : List Token} (visible : ∀ t, tokens.getLast? = some t → t.isSpace = false) :
    (split tokens).flatten = tokens := by
  obtain ⟨blanks, space, whole⟩ := flatten_splitFrom {} [] tokens
  rw [List.reverse_nil, List.nil_append] at whole
  cases last : blanks.getLast? with
  | none => rwa [List.getLast?_eq_none_iff.mp last, List.append_nil] at whole
  | some t =>
    have seen := visible t (by rw [← whole, List.getLast?_append, last, Option.some_or])
    rw [space t (List.mem_of_getLast? last)] at seen
    contradiction

theorem infix_of_mem_split {tokens piece : List Token} (member : piece ∈ split tokens) : piece <:+: tokens := by
  obtain ⟨blanks, _, whole⟩ := flatten_splitFrom {} [] tokens
  rw [List.reverse_nil, List.nil_append] at whole
  exact (List.infix_of_mem_flatten member).trans ⟨[], blanks, whole⟩

/-- No white space and no line comment stands where a statement may end. -/
def Brisk (tokens : List Token) : Prop := tokens.IsChain fun t next => ends t = true → trails next = false

instance (tokens : List Token) : Decidable (Brisk tokens) := inferInstanceAs (Decidable (tokens.IsChain _))

theorem getLast?_of_mem_splitFrom (s : Depth) (current tokens : List Token)
    (behind : s.ended = true → ∃ t, current.head? = some t ∧ ends t = true)
    (brisk : Brisk (current.head?.toList ++ tokens)) (piece : List Token)
    (member : piece ∈ splitFrom s current tokens) :
    piece.getLast? = (current.reverse ++ tokens).getLast? ∨ ∃ t, piece.getLast? = some t ∧ ends t = true := by
  induction tokens generalizing s current with
  | nil =>
    rw [splitFrom] at member
    split at member
    · exact absurd member List.not_mem_nil
    · rw [List.mem_singleton.mp member, List.append_nil]
      exact .inl rfl
  | cons t rest ih =>
    have later : Brisk (t :: rest) := List.IsChain.right_of_append brisk
    rw [splitFrom] at member
    split at member
    next cut =>
      rw [Bool.and_eq_true] at cut
      rcases List.mem_cons.mp member with rfl | inside
      · right
        rw [List.getLast?_reverse]
        exact behind cut.1
      · have fresh : (({} : Depth).next t).ended = true → ∃ u, [t].head? = some u ∧ ends u = true := by
          intro ended
          rcases ended_next _ t ended with before | here
          · contradiction
          · exact ⟨t, rfl, here⟩
        have found := ih (({} : Depth).next t) [t] fresh later inside
        rwa [List.reverse_singleton, List.singleton_append, ← List.getLast?_append_cons] at found
    next on =>
      have still : (s.next t).ended = true → ∃ u, (t :: current).head? = some u ∧ ends u = true := by
        intro ended
        rcases ended_next s t ended with before | here
        · obtain ⟨u, first, closing⟩ := behind before
          rw [first] at brisk
          have quiet : trails t = false := List.rel_of_isChain_cons_cons brisk closing
          simp [before, quiet] at on
        · exact ⟨t, rfl, here⟩
      have found := ih (s.next t) (t :: current) still later member
      rwa [List.reverse_cons, List.append_assoc, List.singleton_append] at found

theorem getLast?_of_mem_split {tokens piece : List Token} (brisk : Brisk tokens) (member : piece ∈ split tokens) :
    piece.getLast? = tokens.getLast? ∨ ∃ t, piece.getLast? = some t ∧ ends t = true :=
  getLast?_of_mem_splitFrom {} [] tokens (fun ended => nomatch ended) brisk piece member

/-! Nesting. -/

/-- With so many parentheses open at the start, no more than `top` are ever open. -/
def Shallow (top : Nat) : Nat → List Token → Prop
  | _, [] => True
  | n, t :: rest =>
    if t.isMark '(' then n < top ∧ Shallow top (n + 1) rest
    else if t.isMark ')' then Shallow top (n - 1) rest
    else Shallow top n rest

theorem Shallow.split {top n : Nat} {front more : List Token} (shallow : Shallow top n (front ++ more)) :
    Shallow top n front ∧ ∃ m, Shallow top m more := by
  induction front generalizing n with
  | nil => exact ⟨trivial, n, shallow⟩
  | cons t front ih =>
    rw [List.cons_append, Shallow] at shallow
    rw [Shallow]
    split_ifs at shallow ⊢ with opening closing
    · obtain ⟨inside, later⟩ := ih shallow.2
      exact ⟨⟨shallow.1, inside⟩, later⟩
    · exact ih shallow
    · exact ih shallow

theorem Shallow.part {top n : Nat} {tokens piece : List Token} (shallow : Shallow top n tokens)
    (inside : piece <:+: tokens) : ∃ m, Shallow top m piece := by
  obtain ⟨front, back, rfl⟩ := inside
  obtain ⟨m, first⟩ := shallow.split.1.split.2
  exact ⟨m, first⟩

/-- The pairs inside each open parenthesis and the parentheses around it are together no more than `top`. -/
def Held (top : Nat) : List Nat → Prop
  | [] => True
  | depth :: outer => depth + (outer.length + 1) ≤ top ∧ Held top outer

theorem nestingFrom_le {top n : Nat} (deepest : Nat) (inside : List Nat) (tokens : List Token)
    (shallow : Shallow top n tokens) (open_ : inside.length ≤ n) (held : Held top inside) :
    nestingFrom deepest inside tokens ≤ max deepest top := by
  induction tokens generalizing n deepest inside with
  | nil => exact Nat.le_max_left ..
  | cons t rest ih =>
    rw [Shallow] at shallow
    unfold nestingFrom
    split_ifs at shallow ⊢ with opening closing
    · refine ih deepest (0 :: inside) shallow.2 (by simpa using open_) ⟨?_, held⟩
      have := shallow.1
      omega
    · cases inside with
      | nil => exact ih deepest [] shallow (Nat.zero_le _) trivial
      | cons depth outer =>
        obtain ⟨here, further⟩ := held
        rw [List.length_cons] at open_
        have pair : max deepest (depth + 1) ≤ max deepest top := by omega
        cases outer with
        | nil => exact (ih _ [] shallow (Nat.zero_le _) trivial).trans (by omega)
        | cons d more =>
          rw [List.length_cons] at here open_
          have open_ : (max d (depth + 1) :: more).length ≤ n - 1 := by rw [List.length_cons]; omega
          refine (ih _ _ shallow open_ ⟨?_, further.2⟩).trans (by omega)
          have := further.1
          omega
    · exact ih deepest inside shallow open_ held

theorem Shallow.nesting_le {top n : Nat} {tokens : List Token} (shallow : Shallow top n tokens) :
    nesting tokens ≤ top := by
  have bound := nestingFrom_le 0 [] tokens shallow (Nat.zero_le _) trivial
  rwa [Nat.zero_max] at bound

end SqlSchema.Statement
