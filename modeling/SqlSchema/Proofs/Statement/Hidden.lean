import SqlSchema.Proofs.Statement.Comments

/-! Texts in MySQL of which nothing is to be seen. Comments that tokens know may open inside those after a number sign,
and when they go, the end of a line may go with them; but what follows is hidden wherever it begins, so nothing appears. -/
namespace SqlSchema.Statement
open Text Token

/-- A hidden text, which may begin inside a comment after a number sign. -/
inductive Hidden : Bool → List Char → Prop
  | nil {inside} : Hidden inside []
  | char {inside c rest} (plain : c ∉ enclosing) (unseen : shown inside c = []) (apart : c = '/' → rest.head? ≠ some '*')
    (hidden : Hidden (hashed inside c) rest) : Hidden inside (c :: rest)
  | line {front body} (opener : front ∈ [['-', '-'], ['#', ' ']]) (usual : body.head? ≠ some '+')
    (hidden : Hidden false (afterLine body)) : Hidden false (front ++ body)
  | block {body after} (closed : afterBlock body = some after) (usual : body.head? ≠ some '+')
    (hidden : Hidden false after) : Hidden false ('/' :: '*' :: body)

/-- Where no comment opens or one goes on, a hidden text goes on by one character. -/
theorem Hidden.step {inside : Bool} {c : Char} {rest : List Char}
    (within : inside = true ∨ opensComment (c :: rest) = false) (hidden : Hidden inside (c :: rest)) :
    c ∉ enclosing ∧ shown inside c = [] ∧ (c = '/' → rest.head? ≠ some '*') ∧ Hidden (hashed inside c) rest := by
  generalize whole : c :: rest = text at hidden within
  cases hidden with
  | nil => contradiction
  | char plain unseen apart hidden =>
    cases whole
    exact ⟨plain, unseen, apart, hidden⟩
  | @line front body opener _ _ =>
    have opens : opensComment (front ++ body) = true := by
      simp only [List.mem_cons, List.not_mem_nil, or_false] at opener
      rcases opener with rfl | rfl <;> rfl
    simp [opens] at within
  | block _ _ _ => simp [opensComment] at within

theorem isBlank_of_hashed {inside : Bool} {c : Char} (unseen : shown inside c = []) (ended : hashed inside c = false) :
    isBlank c = true := by
  cases inside with
  | true => exact isBlank_of_isLineEnd c (by simpa [hashed] using ended)
  | false =>
    have other : c ≠ '#' := by simpa [hashed] using ended
    by_contra visible
    simp [shown, other, visible] at unseen

theorem Hidden.zoneless {inside : Bool} {cs : List Char} (hidden : Hidden inside cs) : Zoneless cs := by
  have stop {c : Char} (other : isWordOrBlank c = false) (usual : c ≠ '\x27') (rest : List Char) :
      Zoneless (c :: rest) := by
    rw [Zoneless, List.dropWhile_cons_of_neg (by simp [other])]
    simpa using usual
  induction hidden with
  | nil => simp [Zoneless]
  | @char inside c rest plain _ _ _ ih =>
    cases wordy : isWordOrBlank c with
    | true => rwa [Zoneless, List.dropWhile_cons_of_pos wordy]
    | false => exact stop wordy (fun same => plain (same ▸ by decide)) rest
  | line opener _ _ =>
    simp only [List.mem_cons, List.not_mem_nil, or_false] at opener
    rcases opener with rfl | rfl <;> exact stop (by decide) (by decide) _
  | block _ _ _ => exact stop (by decide) (by decide) _

/-- A token that is no comment leaves a hidden text behind it. -/
theorem Hidden.behind {inside : Bool} {taken after : List Char} (tight : Tight taken)
    (within : taken ≠ [] → inside = true ∨ opensComment (taken ++ after) = false)
    (hidden : Hidden inside (taken ++ after)) :
    Unquoted taken ∧ seen inside taken = [] ∧ Hidden (hashedBy inside taken) after := by
  induction taken generalizing inside with
  | nil => exact ⟨List.forall_mem_nil _, rfl, hidden⟩
  | cons c taken ih =>
    obtain ⟨plain, unseen, _, further⟩ := hidden.step (within (List.cons_ne_nil c taken))
    have later : taken ≠ [] → hashed inside c = true ∨ opensComment (taken ++ after) = false := by
      intro filled
      cases on : hashed inside c with
      | true => exact .inl rfl
      | false => exact .inr (Bool.not_eq_true _ ▸ tight.quiet filled (isBlank_of_hashed unseen on))
    obtain ⟨unquoted, nothing, last⟩ := ih tight.tail later further
    refine ⟨List.forall_mem_cons.mpr ⟨isHashQuote_of_plain plain, unquoted⟩, ?_, last⟩
    rw [seen, unseen, nothing, List.nil_append]

/-- Inside a comment the rest of the line is hidden, and so is what follows it. -/
theorem Hidden.afterLine {body : List Char} (hidden : Hidden true body) :
    ∃ text, body = text ++ Token.afterLine body ∧ Unquoted text ∧ seen true text = [] ∧
      Hidden false (Token.afterLine body) := by
  have ended (ending : List Char) (blank : ∀ c ∈ ending, isBlank c = true) : Unquoted ending ∧ seen true ending = [] :=
    ⟨unquoted_of_blank blank, seen_of_blank true ending blank⟩
  fun_induction Token.afterLine body with
  | case1 rest =>
    obtain ⟨unquoted, unseen⟩ := ended ['\r', '\n'] (by decide)
    obtain ⟨_, _, _, further⟩ := hidden.step (.inl rfl)
    exact ⟨['\r', '\n'], rfl, unquoted, unseen, (further.step (.inr rfl)).2.2.2⟩
  | case2 rest _ =>
    obtain ⟨unquoted, unseen⟩ := ended ['\r'] (by decide)
    exact ⟨['\r'], rfl, unquoted, unseen, (hidden.step (.inl rfl)).2.2.2⟩
  | case3 rest =>
    obtain ⟨unquoted, unseen⟩ := ended ['\n'] (by decide)
    exact ⟨['\n'], rfl, unquoted, unseen, (hidden.step (.inl rfl)).2.2.2⟩
  | case4 c rest both turn feed ih =>
    obtain ⟨plain, _, _, further⟩ := hidden.step (.inl rfl)
    have on : hashed true c = true := by
      have other : c ≠ '\n' ∧ c ≠ '\r' := ⟨feed, turn⟩
      simp [hashed, isLineEnd, other]
    rw [on] at further
    obtain ⟨text, split, unquoted, unseen, last⟩ := ih further
    refine ⟨c :: text, congrArg (c :: ·) split, ?_, ?_, last⟩
    · exact List.forall_mem_cons.mpr ⟨isHashQuote_of_plain plain, unquoted⟩
    · rw [seen, on, unseen]
      rfl
  | case5 => exact ⟨[], rfl, List.forall_mem_nil _, rfl, .nil⟩

/-! Tokens. -/

/-- Tokens that show nothing. `inside` and `last` say where a comment after a number sign is sure to go on; it may also go
on elsewhere. -/
inductive Mute : Bool → List Token → Bool → Prop
  | nil {inside} : Mute inside [] inside
  | comment {inside t rest last} (comment : t.isComment = true) (mute : Mute false rest last) :
    Mute inside (t :: rest) last
  | plain {inside next t rest last} (plain : t.isComment = false)
    (blank : t.isSpace = true → ∀ c ∈ t.text, isBlank c = true) (unquoted : Unquoted t.text)
    (unseen : seen inside t.text = []) (sure : next = true → hashedBy inside t.text = true)
    (mute : Mute next rest last) : Mute inside (t :: rest) last

theorem leads_hint {front body text after : List Char} (before : Option Char)
    (opener : front ∈ [['-', '-'], ['#', ' ']]) (hint : body.head? = some '+') (split : body = text ++ after)
    (ended : after = afterLine body) : Leads (fun t => t.text = front ++ text ∧ t.isComment = false ∧ t.isSpace = false)
      before (front ++ body) after := by
  simp only [List.mem_cons, List.not_mem_nil, or_false] at opener
  have found : leading before (front ++ body) = some (.lineHint, after) := by
    rcases opener with rfl | rfl <;> simp [leading, Token.block, dollarString, Token.line, hint, ended]
  have filled : front ++ text ≠ [] := by rcases opener with rfl | rfl <;> simp
  have whole : front ++ body = front ++ text ++ after := by rw [List.append_assoc, ← split]
  rw [whole] at found ⊢
  exact leads_of_leading before filled found ⟨rfl, rfl, rfl⟩

/-- Where a comment opens and nothing is seen, one after a number sign goes on or begins. -/
theorem opener_of_unseen {inside : Bool} {c : Char} {rest : List Char} (unseen : shown inside c = [])
    (apart : c = '/' → rest.head? ≠ some '*') (opens : opensComment (c :: rest) = true) :
    ∃ mark body, rest = mark :: body ∧ [c, mark] ∈ [['-', '-'], ['#', ' ']] ∧
      hashed inside c = true ∧ hashed true mark = true ∧ isHashQuote mark = false := by
  unfold opensComment at opens
  split at opens
  next body same =>
    cases same
    exact absurd rfl (apart rfl)
  next body same =>
    cases same
    cases inside with
    | true => exact ⟨_, _, rfl, by decide, by decide⟩
    | false => exact absurd unseen (by decide)
  next body same =>
    cases same
    exact ⟨_, _, rfl, by decide, by cases inside <;> decide⟩
  next => contradiction

theorem Hidden.mute {inside : Bool} {cs : List Char} (hidden : Hidden inside cs) (before : Option Char) :
    ∃ last, Mute inside (scanFrom before cs) last := by
  induction size : cs.length using Nat.strongRecOn generalizing inside cs before with
  | ind n ih =>
    have skip {after : List Char} (found : Leads (·.isComment = true) before cs after) (hidden : Hidden false after) :
        ∃ last, Mute inside (scanFrom before cs) last := by
      obtain ⟨t, comment, split, scanned⟩ := found
      obtain ⟨last, mute⟩ := ih _ (size ▸ split.shorter) hidden t.text.getLast? rfl
      rw [scanned]
      exact ⟨last, .comment comment mute⟩
    have zoneless := hidden.zoneless
    cases hidden with
    | nil => exact ⟨inside, by rw [scanFrom]; exact .nil⟩
    | line opener usual hidden => exact skip (leads_line before opener usual) hidden
    | block closed usual hidden => exact skip (leads_block before closed usual) hidden
    | @char _ c rest plain unseen apart hidden =>
      have whole := Hidden.char plain unseen apart hidden
      cases opens : opensComment (c :: rest) with
      | false =>
        obtain ⟨after, t, coded, split, scanned⟩ := leads_plain before plain opens (timeZone_of_zoneless _ zoneless)
        rw [split.whole] at whole opens
        obtain ⟨unquoted, nothing, behind⟩ := whole.behind coded.tight fun _ => .inr opens
        obtain ⟨last, mute⟩ := ih _ (size ▸ split.shorter) behind t.text.getLast? rfl
        rw [scanned]
        exact ⟨last, .plain coded.plain coded.blank unquoted nothing id mute⟩
      | true =>
        obtain ⟨mark, body, rfl, opener, on⟩ := opener_of_unseen unseen apart opens
        rw [on.1] at hidden
        obtain ⟨_, _, _, inner⟩ := hidden.step (.inl rfl)
        rw [on.2.1] at inner
        obtain ⟨text, split, unquoted, nothing, behind⟩ := inner.afterLine
        by_cases hint : body.head? = some '+'
        · obtain ⟨t, ⟨same, plainly, solid⟩, parts, scanned⟩ := leads_hint before opener hint split rfl
          obtain ⟨last, mute⟩ := ih _ (size ▸ parts.shorter) behind t.text.getLast? rfl
          have letters : Unquoted ([c, mark] ++ text) :=
            List.forall_mem_append.mpr ⟨by simp [isHashQuote_of_plain plain, on.2.2], unquoted⟩
          have unread : seen inside ([c, mark] ++ text) = [] := by
            have second : shown true mark = [] := rfl
            simp [seen, unseen, on.1, on.2.1, second, nothing]
          rw [List.cons_append, List.singleton_append] at scanned
          rw [scanned]
          exact ⟨last, .plain plainly (fun white => absurd white (by simp [solid])) (same ▸ letters) (same ▸ unread)
            (fun sure => absurd sure Bool.false_ne_true) mute⟩
        · exact skip (leads_line before opener hint) behind

theorem Mute.split {inside last : Bool} {front more : List Token} (mute : Mute inside (front ++ more) last) :
    ∃ mid, Mute inside front mid ∧ Mute mid more last := by
  induction front generalizing inside with
  | nil => exact ⟨inside, .nil, mute⟩
  | cons t front ih =>
    rw [List.cons_append] at mute
    cases mute with
    | comment comment mute =>
      obtain ⟨mid, one, two⟩ := ih mute
      exact ⟨mid, .comment comment one, two⟩
    | plain plain blank unquoted unseen sure mute =>
      obtain ⟨mid, one, two⟩ := ih mute
      exact ⟨mid, .plain plain blank unquoted unseen sure one, two⟩

theorem Mute.dropWhile {last : Bool} {tokens : List Token} (mute : Mute false tokens last) (p : Token → Bool)
    (known : ∀ t, p t = true → t.isComment = true ∨ t.isSpace = true) : Mute false (tokens.dropWhile p) last := by
  induction tokens with
  | nil => exact mute
  | cons t rest ih =>
    by_cases holds : p t = true
    · rw [List.dropWhile_cons_of_pos holds]
      cases mute with
      | comment _ mute => exact ih mute
      | @plain _ next _ _ _ plain blank _ _ sure mute =>
        have white := (known t holds).resolve_left (by simp [plain])
        have outside : next = false := by
          by_contra on
          simpa [hashedBy_of_blank _ (blank white)] using sure (Bool.not_eq_false _ ▸ on)
        exact ih (outside ▸ mute)
    · rwa [List.dropWhile_cons_of_neg holds]

theorem Mute.behind {inside last : Bool} {t : Token} {rest : List Token} (mute : Mute inside (t :: rest) last)
    (comment : t.isComment = true) : Mute false rest last := by
  cases mute with
  | comment _ mute => exact mute
  | plain plain => simp [plain] at comment

theorem Mute.behind_joined {inside last : Bool} {t : Token} {rest after : List Token} {run : List Char}
    (mute : Mute inside (t :: rest) last) (comment : t.isComment = true)
    (joined : joinedRuns (t :: rest) = some (run, after)) : Mute false after last :=
  of_joinedRuns (Q := (Mute false · last)) (fun _ left => left.dropWhile inRun comment_or_space)
    (fun _ left => left.dropWhile Token.isSpace fun _ => .inr) joined (.comment comment (mute.behind comment))

/-! What is left. -/

/-- A text that shows nothing wherever a comment after a number sign goes on in front of it, if it is sure to. -/
structure Unseen (inside : Bool) (cs : List Char) (last : Bool) : Prop where
  unquoted : Unquoted cs
  seen : ∀ now, (inside = true → now = true) → Statement.seen now cs = []
  last : last = true → ∀ now, (inside = true → now = true) → hashedBy now cs = true

theorem seen_of_sure {inside now : Bool} (sure : inside = true → now = true) (cs : List Char)
    (unseen : seen inside cs = []) :
    seen now cs = [] ∧ (hashedBy inside cs = true → hashedBy now cs = true) := by
  induction cs generalizing inside now with
  | nil => exact ⟨rfl, sure⟩
  | cons c rest ih =>
    rw [seen, List.append_eq_nil_iff] at unseen
    have still : hashed inside c = true → hashed now c = true := by
      cases inside with
      | true =>
        rw [sure rfl]
        exact id
      | false =>
        intro on
        have hash : c = '#' := by simpa [hashed] using on
        subst hash
        cases now <;> rfl
    obtain ⟨nothing, last⟩ := ih still unseen.2
    refine ⟨?_, last⟩
    rw [seen, nothing, List.append_nil]
    cases now with
    | true => rfl
    | false =>
      have outside : inside = false := by
        by_contra on
        exact absurd (sure (Bool.not_eq_false _ ▸ on)) Bool.false_ne_true
      exact outside ▸ unseen.1

theorem Unseen.append {inside mid last : Bool} {front more : List Char} (one : Unseen inside front mid)
    (two : Unseen mid more last) : Unseen inside (front ++ more) last where
  unquoted := List.forall_mem_append.mpr ⟨one.unquoted, two.unquoted⟩
  seen now sure := by
    rw [seen_append, one.seen now sure, List.nil_append]
    exact two.seen _ fun on => one.last on now sure
  last on now sure := by
    rw [hashedBy_append]
    exact two.last on _ fun still => one.last still now sure

/-- Texts that are alike show the same. -/
theorem Unseen.alike {inside last : Bool} {cs ds : List Char} (alike : Alike ds cs) (unquoted : Unquoted ds)
    (unseen : Unseen inside cs last) : Unseen inside ds last where
  unquoted := unquoted
  seen now sure := (alike now).1.trans (unseen.seen now sure)
  last on now sure := (alike now).2.trans (unseen.last on now sure)

theorem unseen_remains (inside : Bool) (run : List Char) : Unseen inside (remains run) false :=
  have blank : ∀ c ∈ remains run, isBlank c = true := isBlank_of_mem_remains
  ⟨unquoted_of_blank blank, fun now _ => seen_of_blank now _ blank, fun on => absurd on Bool.false_ne_true⟩

/-- What shows nothing wherever it begins. -/
theorem Unseen.weaken {inside last : Bool} {cs : List Char} (unseen : Unseen false cs last) : Unseen inside cs last :=
  ⟨unseen.unquoted, fun now _ => unseen.seen now nofun, fun on now _ => unseen.last on now nofun⟩

theorem Mute.pieces {inside last : Bool} {tokens : List Token} (mute : Mute inside tokens last)
    (before : Option (List Char)) : Unseen inside (piecesFrom before tokens).flatten last := by
  -- What comes in place of comments is nothing or blank, and the rest is hidden wherever it begins.
  have blank {inside : Bool} (run : List Char) {more : List Char} (later : Unseen false more last) :
      Unseen inside (remains run ++ more) last := (unseen_remains inside run).append later
  fun_induction piecesFrom before tokens generalizing inside with
  | case1 before =>
    cases mute
    exact ⟨List.forall_mem_nil _, fun _ _ => rfl, fun on _ sure => sure on⟩
  | case2 before t rest comment run after joined drops ih => exact (ih (mute.behind_joined comment joined)).weaken
  | case3 before t rest comment run after joined drops ih => exact blank run (ih (mute.behind_joined comment joined))
  | case4 before t rest comment joined drops ih => exact (ih (mute.behind comment)).weaken
  | case5 before t rest comment joined drops ih => exact blank t.text (ih (mute.behind comment))
  | case6 before t rest uncommented ih =>
    cases mute with
    | comment comment => exact absurd comment uncommented
    | plain _ _ unquoted unseen sure mute =>
      refine Unseen.append ⟨unquoted, fun now on => (seen_of_sure on _ unseen).1, fun on now within => ?_⟩ (ih mute)
      exact (seen_of_sure within _ unseen).2 (sure on)

theorem Mute.plain_text {inside last : Bool} {tokens : List Token} (mute : Mute inside tokens last) :
    Unseen inside (Statement.plain tokens) last ∧ '\r' ∉ Statement.plain tokens := by
  have whole := mute.pieces none
  have lines := alike_linesFrom [] (uncomment tokens) (List.forall_mem_nil _) whole.unquoted
  have kept {P : Char → Prop} (feed : P '\n') (usual : ∀ c ∈ uncomment tokens, isLineEnd c = false → P c) :
      ∀ c ∈ Statement.plain tokens, P c := forall_joinLines feed [] _ (List.forall_mem_nil _) whole.unquoted usual
  refine ⟨whole.alike lines (kept (by decide) fun c member _ => whole.unquoted c member), fun member => ?_⟩
  refine kept (P := (· ≠ '\r')) (by decide) (fun c _ inline => ?_) _ member rfl
  rintro rfl
  exact absurd inline (by decide)

theorem Mute.flatMap {inside last : Bool} {pieces : List (List Token)} (mute : Mute inside pieces.flatten last) :
    Unseen inside (pieces.flatMap Statement.plain) last ∧ '\r' ∉ pieces.flatMap Statement.plain := by
  induction pieces generalizing inside with
  | nil =>
    cases mute
    exact ⟨⟨List.forall_mem_nil _, fun _ _ => rfl, fun on _ sure => sure on⟩, List.not_mem_nil⟩
  | cons piece more ih =>
    rw [List.flatten_cons] at mute
    obtain ⟨mid, one, two⟩ := mute.split
    obtain ⟨here, fed⟩ := one.plain_text
    obtain ⟨later, feds⟩ := ih two
    exact ⟨here.append later, by simp [fed, feds]⟩

/-- Of a hidden text nothing is left, unless its parentheses are too deep. -/
theorem Hidden.strip {cs : List Char} (hidden : Hidden false cs) (shallow : ¬ TooDeep cs) :
    Statement.strip .mysql cs = .ok [] := by
  obtain ⟨last, mute⟩ := hidden.mute none
  obtain ⟨blanks, _, whole⟩ : ∃ blanks : List Token, (∀ t ∈ blanks, t.isSpace = true) ∧
      (split (scan cs)).flatten ++ blanks = scanFrom none cs := flatten_splitFrom {} [] (scan cs)
  rw [← whole] at mute
  obtain ⟨mid, one, _⟩ := mute.split
  obtain ⟨unseen, fed⟩ := one.flatMap
  rw [tooDeep_iff, Bool.not_eq_true] at shallow
  have nothing : visible (cutHashes ((split (scan cs)).flatMap Statement.plain)) = [] := by
    rw [visible_cutHashes _ unseen.unquoted fed]
    exact unseen.seen false id
  rw [Statement.strip, plainText, shallow]
  exact congrArg Except.ok (trim_of_unseen nothing)

end SqlSchema.Statement
