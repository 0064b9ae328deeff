import Mathlib.Data.List.TakeWhile
import SqlSchema.Proofs.Statement.Split
import SqlSchema.Proofs.Text.Trim
import SqlSchema.Proofs.Text.Upper
import SqlSchema.Statement.Kind

/-! What tells the kind of a statement: the word that its first token of code begins with, or the query behind the names
of a `WITH`. -/
namespace SqlSchema.Statement
open Text Token

/-- What may stand in front of the code of a statement. -/
def isIdle (t : Token) : Bool := t.isSpace || t.isComment || t.isHint

/-- The tokens in front of the code, the first token of code, and those behind it. -/
structure Led (tokens front : List Token) (t : Token) (rest : List Token) : Prop where
  split : tokens = front ++ t :: rest
  idle : ∀ u ∈ front, isIdle u = true
  code : isIdle t = false

theorem Led.dropWhile {tokens front rest : List Token} {t : Token} (led : Led tokens front t rest) :
    tokens.dropWhile isIdle = t :: rest := by
  obtain ⟨rfl, idle, code⟩ := led
  rw [List.dropWhile_append_of_pos idle]
  exact List.dropWhile_cons_of_neg (by simp [code])

theorem led_of_dropWhile {tokens rest : List Token} {t : Token} (found : tokens.dropWhile isIdle = t :: rest) :
    Led tokens (tokens.takeWhile isIdle) t rest := by
  refine ⟨found ▸ List.takeWhile_append_dropWhile.symm, fun u member => List.mem_takeWhile_imp member, ?_⟩
  have first := List.head?_dropWhile_not isIdle tokens
  rwa [found] at first

/-- There is only one first token of code. -/
theorem Led.unique {tokens front front' rest rest' : List Token} {t t' : Token} (one : Led tokens front t rest)
    (other : Led tokens front' t' rest') : t = t' :=
  (List.cons.inj (one.dropWhile.symm.trans other.dropWhile)).1

theorem Led.append {tokens front rest : List Token} {t : Token} (led : Led tokens front t rest) (more : List Token) :
    Led (tokens ++ more) front t (rest ++ more) :=
  ⟨by rw [led.split, List.append_assoc, List.cons_append], led.idle, led.code⟩

/-! Queries behind a `WITH`. -/

section Items
variable {P : Token → Prop}

/-- The items outside parentheses are tokens that have the property. -/
def Consists (P : Token → Prop) (items : List Item) : Prop := ∀ t, .token t ∈ items → P t

theorem Consists.token {t : Token} {items : List Item} (here : P t) (behind : Consists P items) :
    Consists P (.token t :: items) := by
  intro u member
  rcases List.mem_cons.mp member with same | inside
  · exact Item.token.inj same ▸ here
  · exact behind u inside

theorem Consists.group {items : List Item} (behind : Consists P items) : Consists P (.group :: items) := by
  intro u member
  rcases List.mem_cons.mp member with same | inside
  · contradiction
  · exact behind u inside

theorem consists_itemsFrom (outer : List (Token × List Item)) (current : List Item) (tokens : List Token)
    (ahead : ∀ t ∈ tokens, P t) (here : Consists P current) (outside : ∀ pair ∈ outer, P pair.1 ∧ Consists P pair.2) :
    Consists P (itemsFrom outer current tokens) := by
  fun_induction itemsFrom outer current tokens with
  | case1 outer current =>
    intro t member
    rw [List.mem_reverse] at member
    induction outer generalizing current with
    | nil => exact here t member
    | cons pair outer ih =>
      obtain ⟨⟨opening, before⟩, others⟩ := List.forall_mem_cons.mp outside
      refine ih _ (fun u inside => ?_) others member
      exact (List.mem_append.mp inside).elim (here u) (before.token opening u)
  | case2 outer current t rest _ ih =>
    obtain ⟨first, later⟩ := List.forall_mem_cons.mp ahead
    exact ih later nofun (List.forall_mem_cons.mpr ⟨⟨first, here⟩, outside⟩)
  | case3 current t rest _ _ opening before more ih =>
    obtain ⟨⟨_, front⟩, others⟩ := List.forall_mem_cons.mp outside
    exact ih (List.forall_mem_cons.mp ahead).2 front.group others
  | case4 current t rest _ _ ih =>
    obtain ⟨first, later⟩ := List.forall_mem_cons.mp ahead
    exact ih later (here.token first) outside
  | case5 outer current t rest _ _ ih =>
    obtain ⟨first, later⟩ := List.forall_mem_cons.mp ahead
    exact ih later (here.token first) outside

end Items

theorem mem_of_mem_items {tokens : List Token} {t : Token} (member : .token t ∈ items tokens) : t ∈ tokens :=
  consists_itemsFrom [] [] tokens (P := (· ∈ tokens)) (fun _ inside => inside) nofun nofun t member

theorem query_of_queryWord {before items : List Item} {word : String} (found : queryWord before items = some word) :
    ∃ u, .token u ∈ items ∧ u.kind = .keyword .query ∧ word = String.ofList (upper u.text) := by
  fun_induction queryWord before items with
  | case1 => contradiction
  | case2 before item rest _ ih =>
    obtain ⟨u, member, facts⟩ := ih found
    exact ⟨u, List.mem_cons_of_mem _ member, facts⟩
  | case3 before item rest _ named query =>
    rw [Bool.and_eq_true] at query
    cases item with
    | group => exact absurd query.1 (by decide)
    | token u =>
      have kind : u.kind = .keyword .query := by simpa [Item.isQuery, Item.has] using query.1
      refine ⟨u, List.mem_cons_self .., kind, ?_⟩
      rw [← Option.some.inj found, Item.word, Token.isKeyword, kind]
      rfl
  | case4 before item rest _ named _ ih =>
    obtain ⟨u, member, facts⟩ := ih found
    exact ⟨u, List.mem_cons_of_mem _ member, facts⟩

/-- How the first token of code, with the tokens behind it, tells the kind of a statement. -/
inductive Signals (t : Token) (rest : List Token) : String → Prop
  | opening (listed : String.ofList (upper (firstWord t.text)) ∈ openingWords) :
    Signals t rest (String.ofList (upper (firstWord t.text)))
  | keyword {kind} (reserved : t.isKeyword = true) (first : firstWord kind.toList = upper (firstWord t.text)) :
    Signals t rest kind
  | named {u} (clause : t.kind = .keyword .withClause) (inside : u ∈ rest) (query : u.kind = .keyword .query) :
    Signals t rest (String.ofList (upper u.text))

theorem signals_of_kindOf {tokens : List Token} {kind : String} (known : kindOf tokens = .known kind) :
    ∃ front t rest, Led tokens front t rest ∧ Signals t rest kind := by
  unfold kindOf at known
  split at known
  · contradiction
  next t rest found =>
    refine ⟨_, t, rest, led_of_dropWhile found, ?_⟩
    dsimp only at known
    split at known
    next role reserved =>
      have first : t.isKeyword = true := by rw [isKeyword, reserved]
      have own : Signals t rest (String.ofList (upper (firstWord t.text))) := by
        refine .keyword first ?_
        rw [String.toList_ofList, firstWord_upper, firstWord_firstWord]
      split at known
      · split at known
        next opens =>
          rw [Bool.and_eq_true] at opens
          cases known
          exact .opening (List.contains_iff_mem.mp opens.2)
        next => contradiction
      · split at known
        · cases known
          exact .keyword first (by rw [String.toList_ofList, firstWord_upper])
        · cases known
          exact .keyword first (by rw [String.toList_ofList, firstWord_upper])
        · cases clause : queryWord [] ((items rest).filter fun i => !i.has [.lineComment, .blockComment]) with
          | none =>
            rw [clause] at known
            cases known
            exact own
          | some word =>
            rw [clause] at known
            cases known
            obtain ⟨u, inside, query, rfl⟩ := query_of_queryWord clause
            exact .named reserved (mem_of_mem_items (List.mem_of_mem_filter inside)) query
        · cases known
          exact own
    next name =>
      split at known
      next opens =>
        rw [Bool.and_eq_true] at opens
        cases known
        exact .opening (List.contains_iff_mem.mp opens.1)
      next => contradiction
    next => contradiction

theorem Signals.append {t : Token} {rest : List Token} {kind : String} (signals : Signals t rest kind) (more : List Token) :
    Signals t (rest ++ more) kind := by
  cases signals with
  | opening listed => exact .opening listed
  | keyword reserved first => exact .keyword reserved first
  | named clause inside query => exact .named clause (List.mem_append_left more inside) query

/-- The kind of a text is told by its first token of code. -/
theorem signals_of_classify {cs : List Char} {kind : String} (known : classify cs = .ok (.known kind)) :
    ∃ front t rest, Led (scan cs) front t rest ∧ Signals t rest kind := by
  unfold classify at known
  dsimp only at known
  split at known
  · contradiction
  · rw [Except.ok.injEq] at known
    split at known
    · contradiction
    next tokens more first =>
      obtain ⟨front, t, rest, led, signals⟩ := signals_of_kindOf known
      obtain ⟨blanks, _, whole⟩ := flatten_splitFrom {} [] (scan cs)
      have split : scan cs = tokens ++ (more.flatten ++ blanks) := by
        change splitFrom {} [] (scan cs) = _ at first
        rw [first, List.flatten_cons, List.append_assoc] at whole
        exact whole.symm
      exact ⟨front, t, _, split ▸ led.append _, signals.append _⟩

end SqlSchema.Statement
