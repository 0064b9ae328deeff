import SqlSchema.Proofs.Statement.Comments

/-! Texts of code with comments between its pieces, and what is left of them. -/
namespace SqlSchema.Statement
open Text Token

def openers : List (List Char) := [['/', '*'], ['-', '-'], ['#', ' ']]

/-- No comment opens in the text. -/
def Closed (cs : List Char) : Prop := ∀ opener ∈ openers, ¬ opener <:+: cs

instance (cs : List Char) : Decidable (Closed cs) := inferInstanceAs (Decidable (∀ _ ∈ _, _))

theorem closed_of_free {cs : List Char} (unblocked : ¬ ['/', '*'] <:+: cs) (undashed : ¬ ['-', '-'] <:+: cs)
    (free : '#' ∉ cs) : Closed cs := by
  intro opener member inside
  simp only [openers, List.mem_cons, List.not_mem_nil, or_false] at member
  rcases member with rfl | rfl | rfl
  · exact unblocked inside
  · exact undashed inside
  · exact free (inside.subset (List.mem_cons_self ..))

theorem opener_of_opensComment {c d : Char} {rest : List Char} (opens : opensComment (c :: d :: rest) = true) :
    [c, d] ∈ openers := by
  unfold opensComment at opens
  split at opens <;> simp_all [openers]

theorem Closed.tail {c : Char} {rest : List Char} (closed : Closed (c :: rest)) : Closed rest :=
  fun opener member inside => closed opener member (inside.trans (List.suffix_cons ..).isInfix)

theorem Closed.quiet {c : Char} {more rest : List Char} (closed : Closed (c :: more))
    (border : ∀ d, (c :: more).getLast? = some d → opensComment (d :: rest) = false) :
    opensComment (c :: more ++ rest) = false := by
  cases more with
  | nil => exact border c rfl
  | cons d others =>
    by_contra opens
    rw [Bool.not_eq_false] at opens
    exact closed _ (opener_of_opensComment opens) ⟨[], others, rfl⟩

/-- Text in which no comment opens. -/
theorem Calm.front {inside : Bool} {front rest code : List Char} (plain : ∀ c ∈ front, c ∉ enclosing)
    (closed : Closed front) (border : ∀ d, front.getLast? = some d → opensComment (d :: rest) = false)
    (gap : ∀ d, front.getLast? = some d → opensComment rest = true → isBlank d = true)
    (calm : Calm (hashedBy inside front) rest code) : Calm inside (front ++ rest) (seen inside front ++ code) := by
  induction front generalizing inside with
  | nil => exact calm
  | cons c more ih =>
    have last {d : Char} (final : more.getLast? = some d) : (c :: more).getLast? = some d := by
      rw [List.getLast?_cons, final, Option.getD_some]
    have behind := ih (List.forall_mem_cons.mp plain).2 closed.tail (fun d final => border d (last final))
      (fun d final => gap d (last final)) calm
    have apart : opensComment (more ++ rest) = true → isBlank c = true := by
      intro opens
      cases more with
      | nil => exact gap c rfl opens
      | cons d others =>
        rw [closed.tail.quiet fun d final => border d (last final)] at opens
        contradiction
    rw [seen, List.append_assoc]
    exact .char (plain c (List.mem_cons_self ..)) (closed.quiet border) apart behind

/-! Comments. -/

/-- What ends a line. -/
inductive Ending where
  | feed
  | turn
  | both
deriving DecidableEq, Repr

def Ending.chars : Ending → List Char
  | .feed => ['\n']
  | .turn => ['\r']
  | .both => ['\r', '\n']

/-- A comment up to the end of its line or up to its closing mark. -/
inductive Comment where
  | hash (text : List Char) (oneLine : ∀ c ∈ text, isLineEnd c = false) (ending : Ending)
  | dashes (text : List Char) (oneLine : ∀ c ∈ text, isLineEnd c = false) (ending : Ending)
  | block (text : List Char) (open_ : ¬ ['*', '/'] <:+: text) (usual : text.head? ≠ some '+')

def Comment.chars : Comment → List Char
  | .hash text _ ending => '#' :: text ++ ending.chars
  | .dashes text _ ending => '-' :: '-' :: ' ' :: text ++ ending.chars
  | .block text _ _ => '/' :: '*' :: text ++ ['*', '/']

/-- Tokens take the comment for one, or find nothing in it that opens something. -/
def Comment.Apart : Comment → Prop
  | .hash text _ _ =>
    (∃ more, text = ' ' :: more ∧ more.head? ≠ some '+') ∨
      (text.head? ≠ some ' ' ∧ (∀ c ∈ text, c ∉ enclosing) ∧ Closed text)
  | .dashes .. | .block .. => True

theorem Ending.ends (ending : Ending) : ∀ c ∈ ending.chars, isLineEnd c = true := by cases ending <;> decide

theorem Ending.filled (ending : Ending) : ∃ c more, ending.chars = c :: more := by cases ending <;> exact ⟨_, _, rfl⟩

theorem afterLine_append {text : List Char} (oneLine : ∀ c ∈ text, isLineEnd c = false) (rest : List Char) :
    afterLine (text ++ rest) = afterLine rest := by
  induction text with
  | nil => rfl
  | cons c text ih =>
    obtain ⟨here, later⟩ := List.forall_mem_cons.mp oneLine
    have past : afterLine (c :: (text ++ rest)) = afterLine (text ++ rest) := by
      refine afterLine.eq_4 c _ ?_ ?_ ?_
      · rintro _ rfl _
        exact absurd here (by decide)
      · rintro rfl
        exact absurd here (by decide)
      · rintro rfl
        exact absurd here (by decide)
    rw [List.cons_append, past, ih later]

/-- Behind the end of its line a line comment is over. -/
theorem Calm.afterLine {text rest code : List Char} (oneLine : ∀ c ∈ text, isLineEnd c = false) (ending : Ending)
    (calm : Calm false rest code) : Calm false (Token.afterLine (text ++ (ending.chars ++ rest))) code := by
  rw [afterLine_append oneLine]
  cases ending with
  | feed => exact calm
  | both => exact calm
  | turn =>
    by_cases fed : ∃ others, rest = '\n' :: others
    · obtain ⟨others, rfl⟩ := fed
      exact calm.of_feed
    · have alone : Token.afterLine ('\r' :: rest) = rest := afterLine.eq_2 rest fun others same => fed ⟨others, same⟩
      exact alone.symm ▸ calm

theorem afterBlock_append (text rest : List Char) (open_ : ¬ ['*', '/'] <:+: text) :
    afterBlock (text ++ '*' :: '/' :: rest) = some rest := by
  induction text with
  | nil => rfl
  | cons c text ih =>
    have later := ih fun inside => open_ (inside.trans (List.suffix_cons ..).isInfix)
    have past : afterBlock (c :: (text ++ '*' :: '/' :: rest)) = afterBlock (text ++ '*' :: '/' :: rest) := by
      refine afterBlock.eq_2 c _ ?_
      rintro more rfl same
      cases text with
      | nil => exact absurd (List.cons.inj same).1 (by decide)
      | cons d others =>
        rw [List.cons_append] at same
        rw [(List.cons.inj same).1] at open_
        exact open_ ⟨[], others, rfl⟩
    rw [List.cons_append, past, later]

/-- Nothing is seen of the rest of a line. -/
theorem seen_line (text : List Char) (oneLine : ∀ c ∈ text, isLineEnd c = false) (ending : Ending) :
    seen false ('#' :: text ++ ending.chars) = [] ∧ hashedBy false ('#' :: text ++ ending.chars) = false := by
  have inline (text : List Char) (oneLine : ∀ c ∈ text, isLineEnd c = false) :
      seen true text = [] ∧ hashedBy true text = true := by
    induction text with
    | nil => exact ⟨rfl, rfl⟩
    | cons c text ih =>
      obtain ⟨here, later⟩ := List.forall_mem_cons.mp oneLine
      obtain ⟨hidden, still⟩ := ih later
      have on : hashed true c = true := by simp [hashed, here]
      exact ⟨by rw [seen, on, hidden]; rfl, by rw [hashedBy, List.foldl_cons, on]; exact still⟩
  have finished : seen true ending.chars = [] ∧ hashedBy true ending.chars = false := by cases ending <;> decide
  obtain ⟨hidden, still⟩ := inline text oneLine
  have start : hashedBy false ('#' :: text) = true := still
  have front : seen false ('#' :: text) = [] := hidden
  exact ⟨by rw [seen_append, front, start, finished.1, List.nil_append], by rw [hashedBy_append, start, finished.2]⟩

theorem quiet_of_isLineEnd {c d : Char} (ends : isLineEnd d = true) (rest : List Char) :
    opensComment (d :: rest) = false ∧ opensComment (c :: d :: rest) = false := by
  simp only [isLineEnd, Bool.or_eq_true, beq_iff_eq] at ends
  constructor
  · unfold opensComment
    split <;> simp_all
  · unfold opensComment
    split <;> simp_all

theorem Closed.hash {text : List Char} (closed : Closed text) (apart : text.head? ≠ some ' ') :
    Closed ('#' :: text) := by
  intro opener member inside
  rcases List.infix_cons_iff.mp inside with front | later
  · simp only [openers, List.mem_cons, List.not_mem_nil, or_false] at member
    rcases member with rfl | rfl | rfl
    · exact absurd (List.cons_prefix_cons.mp front).1 (by decide)
    · exact absurd (List.cons_prefix_cons.mp front).1 (by decide)
    · obtain ⟨more, split⟩ := (List.cons_prefix_cons.mp front).2
      exact apart (by rw [← split]; rfl)
  · exact closed opener member later

/-- A comment that tokens do not know. -/
theorem Calm.hash {text rest code : List Char} (apart : text.head? ≠ some ' ') (plain : ∀ c ∈ text, c ∉ enclosing)
    (closed : Closed text) (oneLine : ∀ c ∈ text, isLineEnd c = false) (ending : Ending) (calm : Calm false rest code) :
    Calm false ('#' :: text ++ (ending.chars ++ rest)) code := by
  obtain ⟨hidden, finished⟩ := seen_line text oneLine ending
  rw [seen_append, List.append_eq_nil_iff] at hidden
  rw [hashedBy_append] at finished
  -- The end of the line.
  have plainly : ∀ c ∈ ending.chars, c ∉ enclosing := by cases ending <;> decide
  have unopened : Closed ending.chars := by
    have known : ∀ ending : Ending, ∀ opener ∈ openers, ¬ opener <:+: ending.chars := by
      intro ending
      cases ending <;> decide
    exact known ending
  have line (d : Char) (final : ending.chars.getLast? = some d) : isLineEnd d = true :=
    ending.ends d (List.mem_of_getLast? final)
  rw [← finished] at calm
  have stop := Calm.front plainly unopened (fun d final => (quiet_of_isLineEnd (c := d) (line d final) rest).1)
    (fun d final _ => isBlank_of_isLineEnd d (line d final)) calm
  rw [hidden.2, List.nil_append] at stop
  -- The comment in front of it.
  obtain ⟨c, more, chars⟩ := ending.filled
  have ends : isLineEnd c = true := ending.ends c (by simp [chars])
  have border (d : Char) :
      opensComment (ending.chars ++ rest) = false ∧ opensComment (d :: (ending.chars ++ rest)) = false := by
    rw [chars]
    exact quiet_of_isLineEnd ends _
  have start : ∀ c ∈ '#' :: text, c ∉ enclosing := List.forall_mem_cons.mpr ⟨by decide, plain⟩
  have whole := Calm.front start (closed.hash apart)
    (fun d _ => (border d).2) (fun d _ opens => by rw [(border d).1] at opens; contradiction) stop
  rwa [hidden.1, List.nil_append] at whole

theorem Calm.comment {rest code : List Char} (k : Comment) (apart : k.Apart) (calm : Calm false rest code) :
    Calm false (k.chars ++ rest) code := by
  have usual {text more : List Char} (ending : Ending) (plain : text.head? ≠ some '+') :
      (text ++ (ending.chars ++ more)).head? ≠ some '+' := by
    cases text with
    | nil => cases ending <;> simp [Ending.chars]
    | cons c text => exact plain
  cases k with
  | hash text oneLine ending =>
    rcases apart with ⟨more, rfl, plain⟩ | ⟨apart, plain, closed⟩
    · have behind := calm.afterLine (List.forall_mem_cons.mp oneLine).2 ending
      have opener : ['#', ' '] ∈ [['-', '-'], ['#', ' ']] := by decide
      have whole := Calm.line opener (usual ending plain) behind
      simpa [Comment.chars] using whole
    · have whole := calm.hash apart plain closed oneLine ending
      simpa [Comment.chars] using whole
  | dashes text oneLine ending =>
    have spaced : ∀ c ∈ ' ' :: text, isLineEnd c = false := List.forall_mem_cons.mpr ⟨by decide, oneLine⟩
    have opener : ['-', '-'] ∈ [['-', '-'], ['#', ' ']] := by decide
    have first : (' ' :: text).head? ≠ some '+' := by simp
    have whole := Calm.line opener (usual ending first) (calm.afterLine spaced ending)
    simpa [Comment.chars] using whole
  | block text open_ plain =>
    have closed := afterBlock_append text rest open_
    have usual : (text ++ '*' :: '/' :: rest).head? ≠ some '+' := by
      cases text with
      | nil => simp
      | cons c text => exact plain
    have whole := Calm.block closed usual calm
    simpa [Comment.chars] using whole

/-! Code. -/

/-- A piece of code without quotes and without anything that opens a comment, between white space. -/
structure Code where
  chars : List Char
  ascii : ∀ c ∈ chars, c.toNat < 128
  plain : ∀ c ∈ chars, c ∉ ['\x27', '\x22', '\x60', '#', '$', '[']
  undashed : ¬ ['-', '-'] <:+: chars
  unblocked : ¬ ['/', '*'] <:+: chars
  front : chars.head?.any isBlank = true
  back : chars.getLast?.any isBlank = true

def Code.gap : Code := ⟨[' '], by decide, by decide, by decide, by decide, by decide, by decide⟩

theorem Code.free (c : Code) : '#' ∉ c.chars := fun member => c.plain '#' member (by decide)

theorem Code.closed (c : Code) : Closed c.chars := closed_of_free c.unblocked c.undashed c.free

theorem Calm.code {rest code : List Char} (c : Code) (calm : Calm false rest code) :
    Calm false (c.chars ++ rest) (visible c.chars ++ code) := by
  obtain ⟨same, last⟩ := seen_of_free c.chars c.free
  have plain (d : Char) (member : d ∈ c.chars) : d ∉ enclosing := by
    intro mark
    simp only [enclosing, List.mem_cons, List.not_mem_nil, or_false] at mark
    rcases mark with rfl | rfl | rfl | rfl | rfl | rfl
    · exact c.plain _ member (by decide)
    · exact absurd (c.ascii _ member) (by decide)
    all_goals exact c.plain _ member (by decide)
  have blank (d : Char) (final : c.chars.getLast? = some d) : isBlank d = true := by simpa [final] using c.back
  have border (d : Char) (final : c.chars.getLast? = some d) : opensComment (d :: rest) = false := by
    by_contra opens
    have closed : opensWith d = false := closed_of_wordy (by rw [isWordOrBlank, blank d final, Bool.or_true])
    rw [opensWith_of_opensComment (Bool.not_eq_false _ ▸ opens)] at closed
    contradiction
  rw [← last] at calm
  have whole := Calm.front plain c.closed border (fun d final _ => blank d final) calm
  rwa [same] at whole

/-- Code with a comment in front of every piece but the first. -/
structure Commented where
  first : Code
  more : List (Comment × Code)

def Commented.chars (t : Commented) : List Char := t.first.chars ++ t.more.flatMap fun (k, c) => k.chars ++ c.chars

def Commented.code (t : Commented) : List Char := t.first.chars ++ t.more.flatMap fun (_, c) => c.chars

theorem Commented.calm (t : Commented) (apart : ∀ part ∈ t.more, part.1.Apart) :
    Calm false t.chars (visible t.code) := by
  obtain ⟨first, more⟩ := t
  rw [chars, code, visible_append]
  refine Calm.code first ?_
  induction more with
  | nil => exact .nil
  | cons part more ih =>
    obtain ⟨here, later⟩ := List.forall_mem_cons.mp apart
    rw [List.flatMap_cons, List.flatMap_cons, visible_append, List.append_assoc]
    exact Calm.comment part.1 here (Calm.code part.2 (ih later))

/-- Comments are removed and nothing else is: what can be seen of the text left is what can be seen of the code. -/
theorem strip_commented (t : Commented) (apart : ∀ part ∈ t.more, part.1.Apart) (shallow : ¬ TooDeep t.chars) :
    ∃ text, strip .mysql t.chars = .ok text ∧ visible text = visible t.code :=
  (t.calm apart).strip shallow

/-- All kinds of comments, with what would open others elsewhere. -/
def Commented.mixed : Commented where
  first := ⟨" a int, ".toList, by decide +kernel, by decide +kernel, by decide +kernel, by decide +kernel,
    by decide +kernel, by decide +kernel⟩
  more := [
    (.hash "b".toList (by decide +kernel) .feed, .gap),
    (.hash " it's /*".toList (by decide +kernel) .both, .gap),
    (.dashes "it's #".toList (by decide +kernel) .turn, .gap),
    (.block "it's --".toList (by decide +kernel) (by decide +kernel), .gap)]

theorem strip_commented_mixed :
    (∀ part ∈ Commented.mixed.more, part.1.Apart) ∧ ¬ TooDeep Commented.mixed.chars ∧
      ∃ text, strip .mysql Commented.mixed.chars = .ok text ∧ visible text = visible Commented.mixed.code := by
  have bare : (Comment.hash "b".toList (by decide +kernel) .feed).Apart :=
    .inr ⟨by decide +kernel, by decide +kernel, by decide +kernel⟩
  have spaced : (Comment.hash " it's /*".toList (by decide +kernel) .both).Apart :=
    .inl ⟨"it's /*".toList, by decide +kernel, by decide +kernel⟩
  have apart : ∀ part ∈ Commented.mixed.more, part.1.Apart :=
    List.forall_mem_cons.mpr ⟨bare, List.forall_mem_cons.mpr ⟨spaced, List.forall_mem_cons.mpr ⟨trivial,
      List.forall_mem_singleton.mpr trivial⟩⟩⟩
  have shallow : ¬ TooDeep Commented.mixed.chars := by
    rw [tooDeep_iff]
    decide +kernel
  exact ⟨apart, shallow, strip_commented _ apart shallow⟩

/-- Two comments that tokens take for the ends of one, with code between them. -/
def Commented.crossed : Commented where
  first := ⟨" CREATE TABLE t (a int, ".toList, by decide +kernel, by decide +kernel, by decide +kernel,
    by decide +kernel, by decide +kernel, by decide +kernel⟩
  more := [
    (.hash "x /* y".toList (by decide +kernel) .feed,
      ⟨" b int, ".toList, by decide +kernel, by decide +kernel, by decide +kernel, by decide +kernel,
        by decide +kernel, by decide +kernel⟩),
    (.hash " z */".toList (by decide +kernel) .feed,
      ⟨" c int) ".toList, by decide +kernel, by decide +kernel, by decide +kernel, by decide +kernel,
        by decide +kernel, by decide +kernel⟩)]

/-- The code between them is lost. -/
theorem strip_commented_crossed :
    strip .mysql Commented.crossed.chars = .ok "CREATE TABLE t (a int, \n c int)".toList ∧
      visible "CREATE TABLE t (a int, \n c int)".toList ≠ visible Commented.crossed.code := by
  decide +kernel

end SqlSchema.Statement
