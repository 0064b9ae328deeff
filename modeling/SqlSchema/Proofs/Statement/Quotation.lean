import SqlSchema.Proofs.Statement.Commented
import SqlSchema.Proofs.Statement.Quoted

/-! Quoted texts among code without comments. Tokens are cut at the quotes, and statements behind semicolons, so that
quoted texts come out of a text as they are, whatever they hold that would open a comment or end a line elsewhere. -/
namespace SqlSchema.Statement
open Text Token

/-- A text of code without comments and of steady quotes, and what is seen of it. -/
inductive Legible (d : Dialect) (P : Char → Prop) : List Char → List (Sight d) → Prop
  | nil : Legible d P [] []
  | char {c cs o} (code : P c) (quiet : opensComment (c :: cs) = false) (unzoned : timeZone (c :: cs) = none)
    (later : Legible d P cs o) : Legible d P (c :: cs) (sights d [c] ++ o)
  | quote {cs o} (q : Quote d) (steady : q.Steady cs) (ended : ∀ c, cs.head? = some c → isHashQuote c = false)
    (later : Legible d P cs o) : Legible d P (q.chars ++ cs) (.quote q :: o)

/-- Code tokens and quotes, and what is seen of them. -/
inductive Told (d : Dialect) (P : Char → Prop) : List Token → List (Sight d) → Prop
  | nil : Told d P [] []
  | code {t rest o} (coded : Coded t) (code : ∀ c ∈ t.text, P c) (later : Told d P rest o) :
    Told d P (t :: rest) (sights d t.text ++ o)
  | quote {t rest o} (q : Quote d) (steady : q.Steady []) (kind : t.kind ∈ [.name, .string, .symbol])
    (text : t.text = q.chars) (ended : ∀ c, (textOf rest).head? = some c → isHashQuote c = false)
    (later : Told d P rest o) : Told d P (t :: rest) (.quote q :: o)

section Told
variable {d : Dialect} {P : Char → Prop} {cs : List Char} {tokens front more : List Token} {o : List (Sight d)}

/-! Scanning. -/

theorem Legible.behind {taken after : List Char} (legible : Legible d P (taken ++ after) o)
    (unquoted : Unquoted taken) :
    (∀ c ∈ taken, P c) ∧ ∃ later, Legible d P after later ∧ o = sights d taken ++ later := by
  induction taken generalizing o with
  | nil => exact ⟨List.forall_mem_nil _, o, legible, rfl⟩
  | cons c taken ih =>
    obtain ⟨here, others⟩ := List.forall_mem_cons.mp unquoted
    generalize whole : c :: taken ++ after = text at legible
    cases legible with
    | nil => contradiction
    | char code _ _ later =>
      cases whole
      obtain ⟨all, further, legible, rfl⟩ := ih later others
      refine ⟨List.forall_mem_cons.mpr ⟨code, all⟩, further, legible, ?_⟩
      rw [← List.append_assoc, ← sights_append]
      rfl
    | quote q =>
      rw [(List.cons.inj whole).1, q.isHashQuote_mark] at here
      contradiction

/-- A quoted text is one token. -/
theorem leading_quote {q : Quote d} {rest : List Char} (steady : q.Steady rest)
    (ended : ∀ c, rest.head? = some c → isHashQuote c = false) (before : Option Char) :
    ∃ kind ∈ [Token.Kind.name, .string, .symbol], leading before (q.chars ++ rest) = some (kind, rest) := by
  have apart := q.ne_mark ended
  rw [q.chars_append]
  by_cases back : q.mark = '\x60'
  · have known : ∀ d, ∀ quoting ∈ quotings d, quoting.mark = '\x60' → quoting = ⟨'\x60', .nothing, false⟩ := by
      intro d
      cases d <;> decide
    have closed := q.close_append apart
    rw [known d _ q.known back, back] at closed
    refine ⟨.name, by simp, ?_⟩
    rw [back]
    unfold leading quoted
    dsimp only
    rw [if_pos rfl, closed]
    rfl
  · rw [Quote.Steady, if_neg back] at steady
    have closed : Quoting.close ⟨q.mark, .quote, false⟩ (q.body ++ q.mark :: rest) = some (q.body, rest) :=
      Quoting.close_steady rfl q.mark_ne_slash (.inl rfl) steady apart
    rcases q.mark_cases with same | same | same
    · refine ⟨.string, by simp, ?_⟩
      rw [same] at closed ⊢
      unfold leading quoted
      dsimp only
      rw [closed]
      rfl
    · refine ⟨.symbol, by simp, ?_⟩
      rw [same] at closed ⊢
      unfold leading quoted
      dsimp only
      rw [closed]
      rfl
    · exact absurd same back

theorem Legible.told (plain : ∀ c, P c → c ∉ enclosing) (legible : Legible d P cs o) (before : Option Char) :
    Told d P (scanFrom before cs) o := by
  induction size : cs.length using Nat.strongRecOn generalizing cs o before with
  | ind n ih =>
    cases legible with
    | nil =>
      rw [scanFrom]
      exact .nil
    | @char c rest o code quiet unzoned later =>
      obtain ⟨after, t, coded, split, scanned⟩ := leads_plain before (plain c code) quiet unzoned
      have whole := Legible.char code quiet unzoned later
      rw [split.whole] at whole
      obtain ⟨all, further, behind, same⟩ := whole.behind coded.unquoted
      rw [scanned, same]
      exact .code coded all (ih _ (size ▸ split.shorter) behind t.text.getLast? rfl)
    | @quote rest o q steady ended later =>
      obtain ⟨kind, known, found⟩ := leading_quote steady ended before
      have shorter : rest.length < n := by
        rw [← size, List.length_append, q.length_chars]
        omega
      have filled : q.chars ≠ [] := List.cons_ne_nil _ _
      rw [scanFrom_append filled found]
      refine .quote q steady.alone known rfl ?_ (ih _ shorter later _ rfl)
      rw [textOf_scanFrom]
      exact ended

/-! Tokens. -/

theorem Told.split (told : Told d P (front ++ more) o) :
    ∃ first second, Told d P front first ∧ Told d P more second ∧ o = first ++ second := by
  induction front generalizing o with
  | nil => exact ⟨[], o, .nil, told, rfl⟩
  | cons t front ih =>
    rw [List.cons_append] at told
    cases told with
    | code coded code later =>
      obtain ⟨first, second, one, two, rfl⟩ := ih later
      exact ⟨_, second, .code coded code one, two, (List.append_assoc ..).symm⟩
    | quote q steady kind text ended later =>
      obtain ⟨first, second, one, two, rfl⟩ := ih later
      refine ⟨_, second, .quote q steady kind text (fun c head => ended c ?_) one, two, rfl⟩
      rw [textOf_append, List.head?_append, head, Option.some_or]

theorem Told.not_comment (told : Told d P tokens o) : ∀ t ∈ tokens, t.isComment = false := by
  induction told with
  | nil => exact List.forall_mem_nil _
  | code coded _ _ ih => exact List.forall_mem_cons.mpr ⟨coded.plain, ih⟩
  | @quote t _ _ q _ kind _ _ _ ih =>
    have plain : ∀ kind ∈ [Token.Kind.name, .string, .symbol], Token.isComment ⟨kind, t.text⟩ = false := by
      simp [Token.isComment]
    exact List.forall_mem_cons.mpr ⟨plain _ kind, ih⟩

theorem Told.outlined (unquoted : ∀ c, P c → isHashQuote c = false) (told : Told d P tokens o) :
    Outlined d P (textOf tokens) o := by
  induction told with
  | nil => exact .nil
  | code _ code _ ih =>
    exact (Outlined.of_code code).append ih (.inr fun c last => unquoted c (code c (List.mem_of_getLast? last)))
  | @quote t rest o q steady _ text ended _ ih =>
    have whole : textOf (t :: rest) = q.chars ++ textOf rest := by rw [textOf, List.flatMap_cons, text, textOf]
    rw [whole]
    exact .quote q steady ended ih

theorem Told.plain (unquoted : ∀ c, P c → isHashQuote c = false) (feed : P '\n') (told : Told d P tokens o) :
    Outlined d P (Statement.plain tokens) o := by
  rw [Statement.plain, uncomment_of_no_comment tokens told.not_comment]
  exact (told.outlined unquoted).tidyLines unquoted feed

/-! Statements. -/

theorem Told.nil_of_space (told : Told d P tokens o) (space : ∀ t ∈ tokens, t.isSpace = true) : o = [] := by
  induction told with
  | nil => rfl
  | code coded _ _ ih =>
    obtain ⟨here, later⟩ := List.forall_mem_cons.mp space
    rw [ih later, sights_of_blank d (coded.blank here), List.append_nil]
  | @quote t _ _ _ _ kind =>
    have seen : ∀ kind ∈ [Token.Kind.name, .string, .symbol], Token.isSpace ⟨kind, t.text⟩ = false := by
      simp [Token.isSpace]
    have white := space t (List.mem_cons_self ..)
    rw [seen t.kind kind] at white
    contradiction

theorem ne_nil_of_ends {t : Token} (ending : ends t = true) : t.text ≠ [] := by
  intro none
  simp [ends, Token.isMark, none, firstWord, Text.trimLeft] at ending

/-- A statement that is over: only blanks follow what ends it, so that no quote is seen last. -/
theorem Told.closing {u : Token} {back : List Token} (told : Told d P (front ++ u :: back) o) (ending : ends u = true)
    (trailing : ∀ t ∈ back, trails t = true) : ∃ c, o.getLast? = some (.char c) := by
  obtain ⟨first, second, _, two, rfl⟩ := told.split
  cases two with
  | quote q _ kind =>
    have open_ : ∀ kind ∈ [Token.Kind.name, .string, .symbol], ends ⟨kind, u.text⟩ = false := by
      simp [ends, Token.isMark]
    rw [open_ u.kind kind] at ending
    contradiction
  | code coded code later =>
    have space (t : Token) (member : t ∈ back) : t.isSpace = true := by
      have trailing := trailing t member
      have plain := later.not_comment t member
      simp only [trails, Bool.or_eq_true, beq_iff_eq] at trailing
      rcases trailing with blank | line
      · simp [Token.isSpace, blank]
      · simp [Token.isComment, line] at plain
    obtain ⟨l, final⟩ : ∃ l, u.text.getLast? = some l := ⟨_, List.getLast?_eq_some_getLast (ne_nil_of_ends ending)⟩
    obtain ⟨init, split⟩ := List.getLast?_eq_some_iff.mp final
    have visible := coded.closing ending l final
    refine ⟨l, ?_⟩
    rw [later.nil_of_space space, List.append_nil, split, sights_append]
    simp [sights, Statement.visible, visible]

end Told

/-- Where the last character is a quote, a quote is seen last. -/
theorem Outlined.getLast? {d : Dialect} {P : Char → Prop} {cs : List Char} {o : List (Sight d)} {l : Char}
    (unquoted : ∀ c, P c → isHashQuote c = false) (outlined : Outlined d P cs o) (last : cs.getLast? = some l)
    (quote : isHashQuote l = true) : ∃ q, o.getLast? = some (.quote q) := by
  induction outlined with
  | nil => contradiction
  | @char c cs o code later ih =>
    cases final : cs.getLast? with
    | none =>
      rw [List.getLast?_cons, final, Option.getD_none, Option.some_inj] at last
      rw [← last, unquoted c code] at quote
      contradiction
    | some b =>
      rw [List.getLast?_cons, final, Option.getD_some] at last
      obtain ⟨q, seen⟩ := ih (final.trans last)
      exact ⟨q, by rw [List.getLast?_append, seen, Option.some_or]⟩
  | @quote cs o q _ _ later ih =>
    cases final : cs.getLast? with
    | none =>
      rw [List.getLast?_eq_none_iff.mp final] at later
      exact ⟨q, by rw [later.nil_of_blank (List.forall_mem_nil _), List.getLast?_singleton]⟩
    | some b =>
      rw [List.getLast?_append, final, Option.some_or] at last
      obtain ⟨p, seen⟩ := ih (final.trans last)
      exact ⟨p, by rw [List.getLast?_cons, seen, Option.getD_some]⟩

section Told
variable {d : Dialect} {P : Char → Prop} {cs : List Char} {o : List (Sight d)}

/-- A statement but the last is over where it ends. -/
def Over (piece : List Token) : Prop :=
  ∃ front u back, piece = front ++ u :: back ∧ ends u = true ∧ ∀ t ∈ back, trails t = true

theorem over_of_splitFrom (s : Depth) (current tokens : List Token) (begun : s.ended = true → Over current.reverse) :
    ∀ piece ∈ (splitFrom s current tokens).dropLast, Over piece := by
  induction tokens generalizing s current with
  | nil =>
    rw [splitFrom]
    split <;> exact List.forall_mem_nil _
  | cons t rest ih =>
    have fresh (s : Depth) (before : List Token) (still : s.ended = true → Over before.reverse ∧ trails t = true) :
        (s.next t).ended = true → Over (t :: before).reverse := by
      intro ended
      rw [List.reverse_cons]
      rcases ended_next s t ended with done | here
      · obtain ⟨⟨front, u, back, split, ending, trailing⟩, trails⟩ := still done
        refine ⟨front, u, back ++ [t], by rw [split, List.append_assoc, List.cons_append], ending, ?_⟩
        exact List.forall_mem_append.mpr ⟨trailing, List.forall_mem_singleton.mpr trails⟩
      · exact ⟨before.reverse, t, [], rfl, here, List.forall_mem_nil _⟩
    rw [splitFrom]
    split
    next cut =>
      rw [Bool.and_eq_true] at cut
      have later := ih (({} : Depth).next t) [t] (fresh {} [] fun ended => absurd ended Bool.false_ne_true)
      intro piece member
      cases others : splitFrom (({} : Depth).next t) [t] rest with
      | nil =>
        rw [others] at member
        exact absurd member List.not_mem_nil
      | cons next more =>
        rw [others] at member later
        rcases List.mem_cons.mp member with rfl | inside
        · exact begun cut.1
        · exact later piece inside
    next on =>
      refine ih (s.next t) (t :: current) (fresh s current fun ended => ⟨begun ended, ?_⟩)
      simpa [ended] using on

theorem Told.flatMap_plain (unquoted : ∀ c, P c → isHashQuote c = false) (feed : P '\n') {pieces : List (List Token)}
    (told : Told d P pieces.flatten o) (finished : ∀ piece ∈ pieces.dropLast, Over piece) :
    Outlined d P (pieces.flatMap Statement.plain) o := by
  induction pieces generalizing o with
  | nil =>
    cases told
    exact .nil
  | cons piece more ih =>
    rw [List.flatten_cons] at told
    obtain ⟨first, second, one, two, rfl⟩ := told.split
    have here := one.plain unquoted feed
    rw [List.flatMap_cons]
    cases more with
    | nil =>
      cases two
      rw [List.flatMap_nil, List.append_nil, List.append_nil]
      exact here
    | cons next others =>
      rw [List.dropLast_cons_cons] at finished
      obtain ⟨⟨front, u, back, rfl, ending, trailing⟩, later⟩ := List.forall_mem_cons.mp finished
      obtain ⟨c, seen⟩ := one.closing ending trailing
      refine here.append (ih two later) (.inr fun l last => ?_)
      by_contra quote
      obtain ⟨q, other⟩ := here.getLast? unquoted last (Bool.not_eq_false _ ▸ quote)
      cases seen.symm.trans other

/-- All that is seen of a legible text is left of it, and nothing else, unless its parentheses are too deep. -/
theorem Legible.strip (plain : ∀ c, P c → c ∉ enclosing ∧ c ≠ '#') (feed : P '\n') (legible : Legible d P cs o)
    (shallow : ¬ TooDeep cs) : ∃ text, Statement.strip d cs = .ok text ∧ Outlined d P text o := by
  have unquoted (c : Char) (code : P c) : isHashQuote c = false := isHashQuote_of_plain (plain c code).1
  have told : Told d P (scan cs) o := legible.told (fun c code => (plain c code).1) none
  obtain ⟨blanks, space, whole⟩ := flatten_splitFrom {} [] (scan cs)
  rw [List.reverse_nil, List.nil_append] at whole
  rw [← whole] at told
  obtain ⟨first, second, one, two, rfl⟩ := told.split
  rw [two.nil_of_space space, List.append_nil]
  have outlined := one.flatMap_plain unquoted feed (over_of_splitFrom {} [] (scan cs) fun ended => nomatch ended)
  rw [tooDeep_iff, Bool.not_eq_true, split] at shallow
  refine ⟨_, by rw [Statement.strip, plainText, split, shallow]; rfl, ?_⟩
  cases d with
  | postgres => exact outlined.trim
  | mysql =>
    dsimp only
    rw [if_pos rfl, outlined.cutHashes_eq_self fun c code => ⟨unquoted c code, (plain c code).2⟩]
    exact outlined.trim

end Told
end SqlSchema.Statement
