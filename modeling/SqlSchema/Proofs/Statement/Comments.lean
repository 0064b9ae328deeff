import SqlSchema.Proofs.Statement.Kept
import SqlSchema.Proofs.Statement.Nesting
import SqlSchema.Proofs.Token.Shape

/-! Texts whose comments cannot be mistaken. Tokens know no comment after a bare number sign, and such comments are cut
only when the others are gone; in a calm text the first do not hide the others from the tokens, nor the others the
first. -/
namespace SqlSchema.Statement
open Text Token

/-- A calm text, which may begin inside a comment after a number sign, and what is seen of it. -/
inductive Calm : Bool → List Char → List Char → Prop
  | nil {inside} : Calm inside [] []
  | char {inside c rest code} (plain : c ∉ enclosing) (quiet : opensComment (c :: rest) = false)
    (gap : opensComment rest = true → isBlank c = true) (calm : Calm (hashed inside c) rest code) :
    Calm inside (c :: rest) (shown inside c ++ code)
  | line {front body code} (opener : front ∈ [['-', '-'], ['#', ' ']]) (usual : body.head? ≠ some '+')
    (calm : Calm false (afterLine body) code) : Calm false (front ++ body) code
  | block {body after code} (closed : afterBlock body = some after) (usual : body.head? ≠ some '+')
    (calm : Calm false after code) : Calm false ('/' :: '*' :: body) code

theorem Calm.zoneless {inside : Bool} {cs code : List Char} (calm : Calm inside cs code) : Zoneless cs := by
  induction calm with
  | nil => simp [Zoneless]
  | @char inside c rest code plain _ _ _ ih =>
    by_cases wordy : isWordOrBlank c = true
    · rwa [Zoneless, List.dropWhile_cons_of_pos wordy]
    · have usual : c ≠ '\x27' := fun same => plain (same ▸ by decide)
      rw [Zoneless, List.dropWhile_cons_of_neg wordy, List.head?_cons]
      simpa using usual
  | @line front body _ opener _ _ _ =>
    simp only [List.mem_cons, List.not_mem_nil, or_false] at opener
    rcases opener with rfl | rfl
    · rw [Zoneless, List.cons_append, List.dropWhile_cons_of_neg (by decide)]
      simp
    · rw [Zoneless, List.cons_append, List.dropWhile_cons_of_neg (by decide)]
      simp
  | block _ _ _ _ =>
    rw [Zoneless, List.dropWhile_cons_of_neg (by decide)]
    simp

theorem Calm.plain {inside : Bool} {c : Char} {rest code : List Char} (quiet : opensComment (c :: rest) = false)
    (calm : Calm inside (c :: rest) code) :
    c ∉ enclosing ∧ (opensComment rest = true → isBlank c = true) ∧
      ∃ more, Calm (hashed inside c) rest more ∧ code = shown inside c ++ more := by
  generalize whole : c :: rest = text at calm
  cases calm with
  | nil => contradiction
  | char plain _ gap calm =>
    cases whole
    exact ⟨plain, gap, _, calm, rfl⟩
  | line opener _ _ =>
    rw [whole] at quiet
    simp only [List.mem_cons, List.not_mem_nil, or_false] at opener
    rcases opener with rfl | rfl <;> contradiction
  | block _ _ _ =>
    rw [whole] at quiet
    contradiction

/-- What follows a line end is calm as well. -/
theorem Calm.of_feed {rest code : List Char} (calm : Calm false ('\n' :: rest) code) : Calm false rest code := by
  obtain ⟨_, _, more, calm, rfl⟩ := calm.plain rfl
  exact calm

/-- Characters that open comments. -/
def opensWith (c : Char) : Bool := c == '/' || c == '-' || c == '#'

theorem opensWith_of_opensComment {c : Char} {rest : List Char} (opens : opensComment (c :: rest) = true) :
    opensWith c = true := by
  by_contra other
  simp only [opensWith, Bool.or_eq_true, beq_iff_eq, not_or] at other
  unfold opensComment at opens
  split at opens <;> simp_all

/-- No white space, or nothing that could open a comment. -/
def Tight (cs : List Char) : Prop := (∀ c ∈ cs, isBlank c = false) ∨ ∀ c ∈ cs, opensWith c = false

theorem Tight.tail {c : Char} {rest : List Char} (tight : Tight (c :: rest)) : Tight rest :=
  tight.imp (fun all d member => all d (List.mem_cons_of_mem _ member))
    fun all d member => all d (List.mem_cons_of_mem _ member)

/-- No comment opens behind white space in it. -/
theorem Tight.quiet {c : Char} {taken after : List Char} (tight : Tight (c :: taken)) (filled : taken ≠ [])
    (blank : isBlank c = true) : opensComment (taken ++ after) ≠ true := by
  intro opens
  obtain ⟨next, others, rfl⟩ := List.exists_cons_of_ne_nil filled
  have opener := opensWith_of_opensComment opens
  rcases tight with dense | closed
  · simp [dense c (List.mem_cons_self ..)] at blank
  · simp [closed next (by simp)] at opener

theorem closed_of_wordy {c : Char} (wordy : isWordOrBlank c = true) : opensWith c = false := by
  by_contra opens
  simp only [Bool.not_eq_false, opensWith, Bool.or_eq_true, beq_iff_eq, or_assoc] at opens
  rcases opens with rfl | rfl | rfl <;> exact absurd wordy (by decide)

theorem tight_of_shaped {kind : Token.Kind} {taken : List Char} (shaped : Shaped kind taken) : Tight taken := by
  cases shaped with
  | space _ _ all => exact .inr fun c member => closed_of_wordy (wordy_of_blank all c member)
  | solid _ solid => exact .inl fun c member => ((isSolid_iff c).mp (solid.1 c member)).1
  | words _ words => exact .inr fun c member => closed_of_wordy (words.1 c member)

theorem isHashQuote_of_plain {c : Char} (plain : c ∉ enclosing) : isHashQuote c = false := by
  by_contra quote
  simp only [Bool.not_eq_false, isHashQuote, Bool.or_eq_true, beq_iff_eq, or_assoc] at quote
  rcases quote with rfl | rfl | rfl <;> exact plain (by decide)

/-- A token leaves calm text behind it. -/
theorem Calm.behind {inside : Bool} {taken after code : List Char} (tight : Tight taken)
    (quiet : taken ≠ [] → opensComment (taken ++ after) = false) (calm : Calm inside (taken ++ after) code) :
    Unquoted taken ∧ ∃ more, Calm (hashedBy inside taken) after more ∧ code = seen inside taken ++ more := by
  induction taken generalizing inside code with
  | nil => exact ⟨List.forall_mem_nil _, code, calm, rfl⟩
  | cons c taken ih =>
    obtain ⟨plain, gap, more, behind, rfl⟩ := Calm.plain (quiet (List.cons_ne_nil c taken)) calm
    have apart : taken ≠ [] → opensComment (taken ++ after) = false := by
      intro filled
      by_contra opens
      rw [Bool.not_eq_false] at opens
      exact tight.quiet filled (gap opens) opens
    obtain ⟨unquoted, further, beyond, rfl⟩ := ih tight.tail apart behind
    refine ⟨List.forall_mem_cons.mpr ⟨isHashQuote_of_plain plain, unquoted⟩, further, beyond, ?_⟩
    rw [seen, List.append_assoc]

/-! First tokens. -/

theorem suffix_afterLine (cs : List Char) : afterLine cs <:+ cs := by
  fun_induction afterLine cs with
  | case1 rest => exact ⟨['\r', '\n'], rfl⟩
  | case2 rest _ => exact ⟨['\r'], rfl⟩
  | case3 rest => exact ⟨['\n'], rfl⟩
  | case4 c rest _ _ _ ih => exact ih.trans (List.suffix_cons ..)
  | case5 => exact List.suffix_rfl

theorem suffix_afterBlock {cs after : List Char} (closed : afterBlock cs = some after) : after <:+ cs := by
  fun_induction afterBlock cs with
  | case1 rest =>
    cases closed
    exact ⟨['*', '/'], rfl⟩
  | case2 c rest _ ih => exact (ih closed).trans (List.suffix_cons ..)
  | case3 => contradiction

/-- What tokens look like that are no comments. -/
structure Coded (t : Token) : Prop where
  tight : Tight t.text
  unquoted : Unquoted t.text
  plain : t.isComment = false
  blank : t.isSpace = true → ∀ c ∈ t.text, isBlank c = true
  closing : ends t = true → ∀ c, t.text.getLast? = some c → isBlank c = false

theorem coded_of_shaped {kind : Token.Kind} {taken : List Char} (shaped : Shaped kind taken) : Coded ⟨kind, taken⟩ where
  tight := tight_of_shaped shaped
  unquoted := shaped.unquoted
  plain := shaped.not_comment
  blank := shaped.blank
  closing := by
    intro ending c final
    cases shaped with
    | space white _ _ => rcases white with rfl | rfl <;> exact absurd ending Bool.false_ne_true
    | solid _ solid => exact ((isSolid_iff c).mp (solid.1 c (List.mem_of_getLast? final))).1
    | words _ words =>
      obtain ⟨_, d, last, word⟩ := words
      cases last.symm.trans final
      exact isBlank_of_isWord c word

theorem coded_stray {c : Char} (plain : c ∉ enclosing) : Coded ⟨.stray, [c]⟩ where
  tight := by
    cases blank : isBlank c with
    | false => exact .inl (List.forall_mem_singleton.mpr blank)
    | true => exact .inr (List.forall_mem_singleton.mpr (closed_of_wordy (by simp [isWordOrBlank, blank])))
  unquoted := List.forall_mem_singleton.mpr (isHashQuote_of_plain plain)
  plain := rfl
  blank := fun white => absurd white Bool.false_ne_true
  closing := fun ending => absurd ending Bool.false_ne_true

/-- A part of a text that is not empty, and what follows it. -/
structure Parts (cs taken after : List Char) : Prop where
  filled : taken ≠ []
  whole : cs = taken ++ after

theorem Parts.shorter {cs taken after : List Char} (parts : Parts cs taken after) : after.length < cs.length := by
  have := List.length_pos_iff.mpr parts.filled
  rw [parts.whole, List.length_append]
  omega

/-- The first token of the text has the property, and the others are those of what follows it. -/
def Leads (P : Token → Prop) (before : Option Char) (cs after : List Char) : Prop :=
  ∃ t, P t ∧ Parts cs t.text after ∧ scanFrom before cs = t :: scanFrom t.text.getLast? after

theorem leads_of_leading {P : Token → Prop} {kind : Token.Kind} {taken after : List Char} (before : Option Char)
    (filled : taken ≠ []) (found : leading before (taken ++ after) = some (kind, after)) (holds : P ⟨kind, taken⟩) :
    Leads P before (taken ++ after) after :=
  ⟨_, holds, ⟨filled, rfl⟩, scanFrom_append filled found⟩

theorem leads_plain {c : Char} {rest : List Char} (before : Option Char) (plain : c ∉ enclosing)
    (quiet : opensComment (c :: rest) = false) (unzoned : timeZone (c :: rest) = none) :
    ∃ after, Leads Coded before (c :: rest) after := by
  cases found : leading before (c :: rest) with
  | none => exact ⟨rest, _, coded_stray plain, ⟨List.cons_ne_nil c [], rfl⟩, scanFrom_stray found⟩
  | some token =>
    obtain ⟨kind, after⟩ := token
    obtain ⟨taken, split, shaped⟩ := shaped_leading plain quiet unzoned found
    rw [split] at found ⊢
    exact ⟨after, leads_of_leading before shaped.filled found (coded_of_shaped shaped)⟩

theorem leads_line {front body : List Char} (before : Option Char) (opener : front ∈ [['-', '-'], ['#', ' ']])
    (usual : body.head? ≠ some '+') : Leads (·.isComment = true) before (front ++ body) (afterLine body) := by
  obtain ⟨text, split⟩ := suffix_afterLine body
  simp only [List.mem_cons, List.not_mem_nil, or_false] at opener
  have found : leading before (front ++ body) = some (.lineComment, afterLine body) := by
    rcases opener with rfl | rfl <;> simp [leading, Token.block, dollarString, Token.line, usual]
  have filled : front ++ text ≠ [] := by rcases opener with rfl | rfl <;> simp
  have whole : front ++ body = front ++ text ++ afterLine body := by rw [List.append_assoc, split]
  rw [whole] at found ⊢
  exact leads_of_leading before filled found rfl

theorem leads_block {body after : List Char} (before : Option Char) (closed : afterBlock body = some after)
    (usual : body.head? ≠ some '+') : Leads (·.isComment = true) before ('/' :: '*' :: body) after := by
  obtain ⟨text, split⟩ := suffix_afterBlock closed
  have found : leading before ('/' :: '*' :: body) = some (.blockComment, after) := by
    simp [leading, Token.block, closed, usual]
  rw [← split] at found ⊢
  exact leads_of_leading before (List.cons_ne_nil '/' ('*' :: text)) found rfl

/-! Tokens. -/

/-- Tokens in which comments stand apart from those after a number sign, what is seen of them, and whether such a
comment goes on behind them. -/
inductive Clean : Bool → List Token → List Char → Bool → Prop
  | nil {inside} : Clean inside [] [] inside
  | comment {t rest code last} (comment : t.isComment = true) (clean : Clean false rest code last) :
    Clean false (t :: rest) code last
  | plain {inside t rest code last} (plain : t.isComment = false)
    (blank : t.isSpace = true → ∀ c ∈ t.text, isBlank c = true)
    (unquoted : Unquoted t.text) (clean : Clean (hashedBy inside t.text) rest code last) :
    Clean inside (t :: rest) (seen inside t.text ++ code) last

theorem Calm.clean {inside : Bool} {cs code : List Char} (calm : Calm inside cs code) (before : Option Char) :
    ∃ last, Clean inside (scanFrom before cs) code last := by
  induction size : cs.length using Nat.strongRecOn generalizing inside cs code before with
  | ind n ih =>
    have zoneless := calm.zoneless
    have skip {after code : List Char} (found : Leads (·.isComment = true) before cs after)
        (calm : Calm false after code) : ∃ last, Clean false (scanFrom before cs) code last := by
      obtain ⟨t, comment, split, scanned⟩ := found
      obtain ⟨last, clean⟩ := ih _ (size ▸ split.shorter) calm t.text.getLast? rfl
      rw [scanned]
      exact ⟨last, .comment comment clean⟩
    cases calm with
    | nil => exact ⟨inside, by rw [scanFrom]; exact .nil⟩
    | @char _ c rest code plain quiet gap calm =>
      obtain ⟨after, t, coded, split, scanned⟩ := leads_plain before plain quiet (timeZone_of_zoneless _ zoneless)
      have whole := Calm.char plain quiet gap calm
      rw [split.whole] at whole quiet
      obtain ⟨unquoted, more, behind, same⟩ := whole.behind coded.tight fun _ => quiet
      obtain ⟨last, clean⟩ := ih _ (size ▸ split.shorter) behind t.text.getLast? rfl
      rw [scanned, same]
      exact ⟨last, .plain coded.plain coded.blank unquoted clean⟩
    | line opener usual calm => exact skip (leads_line before opener usual) calm
    | block closed usual calm => exact skip (leads_block before closed usual) calm

theorem Clean.split {inside last : Bool} {front more : List Token} {code : List Char}
    (clean : Clean inside (front ++ more) code last) :
    ∃ first second mid, Clean inside front first mid ∧ Clean mid more second last ∧ code = first ++ second := by
  induction front generalizing inside code with
  | nil => exact ⟨[], code, inside, .nil, clean, rfl⟩
  | cons t front ih =>
    rw [List.cons_append] at clean
    cases clean with
    | comment comment clean =>
      obtain ⟨first, second, mid, one, two, rfl⟩ := ih clean
      exact ⟨first, second, mid, .comment comment one, two, rfl⟩
    | plain plain blank unquoted clean =>
      obtain ⟨first, second, mid, one, two, rfl⟩ := ih clean
      exact ⟨_, second, mid, .plain plain blank unquoted one, two, (List.append_assoc ..).symm⟩

/-- Nothing is seen of white space. -/
theorem Clean.of_space {inside last : Bool} {blanks : List Token} {code : List Char}
    (clean : Clean inside blanks code last) (space : ∀ t ∈ blanks, t.isSpace = true) : code = [] := by
  induction clean with
  | nil => rfl
  | comment _ _ ih => exact ih fun t member => space t (List.mem_cons_of_mem _ member)
  | plain _ blank _ _ ih =>
    rw [seen_of_blank _ _ (blank (space _ (List.mem_cons_self ..))),
      ih fun t member => space t (List.mem_cons_of_mem _ member), List.append_nil]

/-- Comments and white space may be left out where no other comment goes on. -/
theorem Clean.dropWhile {last : Bool} {tokens : List Token} {code : List Char} (clean : Clean false tokens code last)
    (p : Token → Bool) (known : ∀ t, p t = true → t.isComment = true ∨ t.isSpace = true) :
    Clean false (tokens.dropWhile p) code last := by
  induction tokens generalizing code with
  | nil => exact clean
  | cons t rest ih =>
    by_cases holds : p t = true
    · rw [List.dropWhile_cons_of_pos holds]
      cases clean with
      | comment _ clean => exact ih clean
      | plain plain blank _ clean =>
        have white := (known t holds).resolve_left (by simp [plain])
        rw [hashedBy_of_blank _ (blank white)] at clean
        rw [seen_of_blank _ _ (blank white)]
        exact ih clean
    · rwa [List.dropWhile_cons_of_neg holds]

theorem comment_or_space (t : Token) (among : inRun t = true) : t.isComment = true ∨ t.isSpace = true := by
  rw [inRun, Bool.or_eq_true] at among
  exact among.imp_right fun ends => by rw [Token.isSpace, ends, Bool.or_true]

theorem Clean.behind_joined {last : Bool} {tokens rest : List Token} {code run : List Char}
    (clean : Clean false tokens code last) (found : joinedRuns tokens = some (run, rest)) :
    Clean false rest code last := by
  exact of_joinedRuns (Q := (Clean false · code last)) (fun _ behind => behind.dropWhile inRun comment_or_space)
    (fun _ behind => behind.dropWhile Token.isSpace fun _ => .inr) found clean

theorem unquoted_of_blank {cs : List Char} (blank : ∀ c ∈ cs, isBlank c = true) : Unquoted cs :=
  fun c member => isHashQuote_of_wordy (wordy_of_blank blank c member)

/-- A text of which this is seen. -/
structure Shows (inside : Bool) (cs code : List Char) (last : Bool) : Prop where
  unquoted : Unquoted cs
  seen : seen inside cs = code
  last : hashedBy inside cs = last

theorem Shows.append {inside mid last : Bool} {front more first second : List Char} (one : Shows inside front first mid)
    (two : Shows mid more second last) : Shows inside (front ++ more) (first ++ second) last where
  unquoted := List.forall_mem_append.mpr ⟨one.unquoted, two.unquoted⟩
  seen := by rw [seen_append, one.seen, one.last, two.seen]
  last := by rw [hashedBy_append, one.last, two.last]

theorem shows_remains (run : List Char) : Shows false (remains run) [] false :=
  have blank : ∀ c ∈ remains run, isBlank c = true := isBlank_of_mem_remains
  ⟨unquoted_of_blank blank, seen_of_blank false _ blank, hashedBy_of_blank _ blank⟩

theorem Clean.shows_pieces {inside last : Bool} {tokens : List Token} {code : List Char}
    (clean : Clean inside tokens code last) (before : Option (List Char)) :
    Shows inside (piecesFrom before tokens).flatten code last := by
  -- What comes in place of comments is nothing or blank.
  have blank {run more code : List Char} (later : Shows false more code last) :
      Shows false (remains run ++ more) code last := (shows_remains run).append later
  fun_induction piecesFrom before tokens generalizing inside code with
  | case1 before =>
    cases clean
    exact ⟨List.forall_mem_nil _, rfl, rfl⟩
  | case2 before t rest comment run after joined drops ih =>
    cases clean with
    | comment _ clean => exact ih ((Clean.comment comment clean).behind_joined joined)
    | plain plain => simp [plain] at comment
  | case3 before t rest comment run after joined drops ih =>
    cases clean with
    | comment _ clean => exact blank (ih ((Clean.comment comment clean).behind_joined joined))
    | plain plain => simp [plain] at comment
  | case4 before t rest comment joined drops ih =>
    cases clean with
    | comment _ clean => exact ih clean
    | plain plain => simp [plain] at comment
  | case5 before t rest comment joined drops ih =>
    cases clean with
    | comment _ clean => exact blank (ih clean)
    | plain plain => simp [plain] at comment
  | case6 before t rest uncommented ih =>
    cases clean with
    | comment comment => exact absurd comment uncommented
    | plain _ _ unquoted clean => exact Shows.append ⟨unquoted, rfl, rfl⟩ (ih clean)

theorem Clean.shows_plain {inside last : Bool} {tokens : List Token} {code : List Char}
    (clean : Clean inside tokens code last) :
    Shows inside (Statement.plain tokens) code last ∧ '\r' ∉ Statement.plain tokens := by
  have whole := clean.shows_pieces none
  have alike := alike_linesFrom [] (uncomment tokens) (List.forall_mem_nil _) whole.unquoted inside
  have kept {P : Char → Prop} (feed : P '\n') (usual : ∀ c ∈ uncomment tokens, isLineEnd c = false → P c) :
      ∀ c ∈ Statement.plain tokens, P c := forall_joinLines feed [] _ (List.forall_mem_nil _) whole.unquoted usual
  refine ⟨⟨kept (by decide) fun c member _ => whole.unquoted c member, alike.1.trans whole.seen,
    alike.2.trans whole.last⟩, fun member => ?_⟩
  refine kept (P := (· ≠ '\r')) (by decide) (fun c _ inline => ?_) _ member rfl
  rintro rfl
  exact absurd inline (by decide)

theorem Clean.shows_flatMap {inside last : Bool} {pieces : List (List Token)} {code : List Char}
    (clean : Clean inside pieces.flatten code last) :
    Shows inside (pieces.flatMap Statement.plain) code last ∧ '\r' ∉ pieces.flatMap Statement.plain := by
  induction pieces generalizing inside code with
  | nil =>
    cases clean
    exact ⟨⟨List.forall_mem_nil _, rfl, rfl⟩, List.not_mem_nil⟩
  | cons piece more ih =>
    rw [List.flatten_cons] at clean
    obtain ⟨first, second, mid, one, two, rfl⟩ := clean.split
    obtain ⟨here, fed⟩ := one.shows_plain
    obtain ⟨later, feds⟩ := ih two
    exact ⟨here.append later, by simp [fed, feds]⟩

theorem Calm.shows {cs code : List Char} (calm : Calm false cs code) (shallow : ¬ TooDeep cs) :
    ∃ text last, plainText cs = .ok text ∧ Shows false text code last ∧ '\r' ∉ text := by
  obtain ⟨last, clean⟩ := calm.clean none
  obtain ⟨blanks, space, whole⟩ : ∃ blanks : List Token, (∀ t ∈ blanks, t.isSpace = true) ∧
      (split (scan cs)).flatten ++ blanks = scanFrom none cs := flatten_splitFrom {} [] (scan cs)
  rw [← whole] at clean
  obtain ⟨first, second, mid, one, two, rfl⟩ := clean.split
  rw [two.of_space space, List.append_nil]
  obtain ⟨shows, fed⟩ := one.shows_flatMap
  rw [tooDeep_iff, Bool.not_eq_true] at shallow
  exact ⟨_, mid, by rw [plainText, shallow]; rfl, shows, fed⟩

/-- Of a calm text everything outside comments is left, and nothing else, unless its parentheses are too deep. -/
theorem Calm.strip {cs code : List Char} (calm : Calm false cs code) (shallow : ¬ TooDeep cs) :
    ∃ text, Statement.strip .mysql cs = .ok text ∧ visible text = code := by
  obtain ⟨text, _, found, shows, fed⟩ := calm.shows shallow
  refine ⟨_, by rw [Statement.strip, found]; rfl, ?_⟩
  dsimp only
  rw [if_pos rfl, visible_trim, visible_cutHashes _ shows.unquoted fed]
  exact shows.seen

end SqlSchema.Statement
