import SqlSchema.Proofs.Statement.Visible
import SqlSchema.Proofs.Token.Carried

/-! A semicolon behind a text. It is a token of its own, ends up in the last statement or makes one, and stays where it is
when the lines are tidied: apart from white space in front of it nothing changes. -/
namespace SqlSchema.Statement
open Text Token

def semicolon : Token := ⟨.punctuation, [';']⟩

def sealing : Carrier where
  shift := id
  tail := [';']
  caseless _ := rfl
  sealed := by simp

/-- Nothing in the text opens a comment or a quoted text. -/
structure Unopened (cs : List Char) : Prop where
  unquoted : ∀ c ∈ cs, c ∉ ['\x27', '\x22', '\x60', '$', '#']
  undashed : ¬ ['-', '-'] <:+: cs
  unblocked : ¬ ['/', '*'] <:+: cs

section
variable {cs : List Char} (unopened : Unopened cs)
include unopened

theorem Unopened.not_mem {c : Char} (mark : c ∈ ['\x27', '\x22', '\x60', '$', '#']) : c ∉ cs :=
  fun member => unopened.unquoted c member mark

theorem Unopened.closed : Closed cs :=
  closed_of_free unopened.unblocked unopened.undashed (unopened.not_mem (by decide))

theorem scan_semicolon : scan (cs ++ [';']) = scan cs ++ [semicolon] := by
  have unlined : ∀ rest, rest <:+ cs → line rest = none := by
    intro rest behind
    unfold line
    split
    next more => exact absurd (List.IsInfix.trans ⟨[], more, rfl⟩ behind.isInfix) unopened.undashed
    next more => exact absurd (behind.subset (List.mem_cons_self ..)) (unopened.not_mem (by decide))
    next => rfl
  have same := sealing.scanFrom_carry none cs (unopened.not_mem (by decide)) (.inr unlined)
  have text : sealing.carry cs = cs ++ [';'] := congrArg (· ++ [';']) (List.map_id cs)
  have tokens : (scanFrom none cs).map sealing.carried = scanFrom none cs := by
    have own : sealing.carried = id := funext fun t => by
      rw [Carrier.carried, sealing, List.map_id]
      rfl
    rw [own, List.map_id]
  rwa [text, tokens] at same

end

/-! Statements. -/

/-- The last statement goes on up to the semicolon, unless it has ended before. White space alone is a statement only if a
semicolon ends it. -/
theorem splitFrom_semicolon (s : Depth) (current tokens : List Token) :
    ∃ pieces last, splitFrom s current tokens = pieces ++ (if last.all (·.isSpace) then [] else [last]) ∧
      (splitFrom s current (tokens ++ [semicolon]) = pieces ++ [last ++ [semicolon]] ∨
        splitFrom s current (tokens ++ [semicolon]) = pieces ++ [last, [semicolon]]) := by
  induction tokens generalizing s current with
  | nil =>
    have visible (front : List Token) : ¬ (semicolon :: front).all (·.isSpace) = true := by
      rw [List.all_cons]
      exact Bool.false_ne_true
    refine ⟨[], current.reverse, by rw [splitFrom, List.all_reverse, List.nil_append], ?_⟩
    rw [List.nil_append, splitFrom]
    split
    · exact .inr (by rw [splitFrom, if_neg (visible [])]; rfl)
    · exact .inl (by rw [splitFrom, if_neg (visible current), List.reverse_cons]; rfl)
  | cons t rest ih =>
    rw [List.cons_append, splitFrom, splitFrom]
    split
    · obtain ⟨pieces, last, without, behind⟩ := ih (({} : Depth).next t) [t]
      refine ⟨current.reverse :: pieces, last, by rw [without, List.cons_append], ?_⟩
      exact behind.imp (fun same => by rw [same, List.cons_append]) fun same => by rw [same, List.cons_append]
    · exact ih (s.next t) (t :: current)

theorem nesting_semicolon (tokens : List Token) : nesting (tokens ++ [semicolon]) = nesting tokens := by
  have general (deepest : Nat) (inside : List Nat) :
      nestingFrom deepest inside (tokens ++ [semicolon]) = nestingFrom deepest inside tokens := by
    induction tokens generalizing deepest inside with
    | nil => rfl
    | cons t rest ih =>
      rw [List.cons_append, nestingFrom.eq_def, nestingFrom.eq_def]
      simp only [ih]
  exact general 0 []

theorem nesting_of_spaces {tokens : List Token} (spaces : tokens.all (·.isSpace) = true) : nesting tokens = 0 := by
  have none : tokens.countP (·.isMark '(') = 0 := by
    rw [List.countP_eq_zero]
    intro t member
    have space := List.all_eq_true.mp spaces t member
    obtain ⟨kind, text⟩ := t
    cases kind <;> simp_all [isSpace, isMark]
  have shallow : Shallow 0 0 tokens := shallow_of_countP (by rw [none])
  exact Nat.le_zero.mp shallow.nesting_le

/-! Lines. -/

theorem linesFrom_semicolon (current cs : List Char) (unquoted : '\x27' ∉ cs ∧ '\x22' ∉ cs) :
    ∃ front last, linesFrom current cs = front ++ [last] ∧ linesFrom current (cs ++ [';']) = front ++ [last ++ [';']] := by
  have behind {c : Char} {rest : List Char} (unquoted : '\x27' ∉ c :: rest ∧ '\x22' ∉ c :: rest) :
      '\x27' ∉ rest ∧ '\x22' ∉ rest :=
    unquoted.imp (mt (List.mem_cons_of_mem c)) (mt (List.mem_cons_of_mem c))
  have line {current rest : List Char} (later : ∃ front last, linesFrom [] rest = front ++ [last] ∧
      linesFrom [] (rest ++ [';']) = front ++ [last ++ [';']]) : ∃ front last,
        current.reverse :: linesFrom [] rest = front ++ [last] ∧
          current.reverse :: linesFrom [] (rest ++ [';']) = front ++ [last ++ [';']] := by
    obtain ⟨front, last, without, sealed⟩ := later
    exact ⟨current.reverse :: front, last, by rw [without, List.cons_append], by rw [sealed, List.cons_append]⟩
  fun_induction linesFrom current cs with
  | case1 current =>
    have last : linesFrom (';' :: current) [] = [current.reverse ++ [';']] := by rw [linesFrom, List.reverse_cons]
    exact ⟨[], current.reverse, rfl, (linesFrom_char current [] (by decide) (by decide)).trans last⟩
  | case2 current rest ih =>
    rw [List.cons_append, List.cons_append, linesFrom]
    exact line (ih (behind (behind unquoted)))
  | case3 current c rest pair ends ih =>
    have single : c = '\r' → (rest ++ [';']).head? ≠ some '\n' := by
      rintro rfl head
      cases rest with
      | nil => cases head
      | cons d more =>
        cases head
        exact pair more rfl rfl
    rw [List.cons_append, linesFrom_ends current ends single]
    exact line (ih (behind unquoted))
  | case4 current c rest _ _ quote | case5 current c rest _ _ quote =>
    rcases quote with rfl | rfl
    · exact absurd (List.mem_cons_self ..) unquoted.1
    · exact absurd (List.mem_cons_self ..) unquoted.2
  | case6 current c rest _ inline plain ih =>
    rw [List.cons_append, linesFrom_char current _ (by simpa using inline) (not_or.mp plain)]
    exact ih (behind unquoted)

theorem joinLines_semicolon (front : List (List Char)) (last : List Char) :
    ∃ gap, (∀ c ∈ gap, isBlank c = true) ∧
      joinLines (front ++ [last ++ [';']]) = joinLines (front ++ [last]) ++ (gap ++ [';']) := by
  induction front with
  | nil =>
    obtain ⟨gap, split, blank⟩ := trimRight_append last
    have single (line : List Char) : joinLines [line] = trimRight line := List.intercalate_singleton ..
    have sealed : trimRight (last ++ [';']) = last ++ [';'] := trimRight_eq_self _ fun c last => by
      rw [List.getLast?_concat] at last
      cases last
      decide
    refine ⟨gap, blank, ?_⟩
    rw [List.nil_append, List.nil_append, single, single, sealed, ← List.append_assoc, ← split]
  | cons line front ih =>
    obtain ⟨gap, blank, same⟩ := ih
    refine ⟨gap, blank, ?_⟩
    rw [List.cons_append, List.cons_append, joinLines_cons _ _ (by simp), joinLines_cons _ _ (by simp), same,
      List.append_assoc, List.cons_append]

/-- Only white space comes between the lines and the semicolon. -/
theorem tidyLines_semicolon {cs : List Char} (unquoted : '\x27' ∉ cs ∧ '\x22' ∉ cs) :
    ∃ gap, (∀ c ∈ gap, isBlank c = true) ∧ tidyLines (cs ++ [';']) = tidyLines cs ++ (gap ++ [';']) := by
  obtain ⟨front, last, without, sealed⟩ := linesFrom_semicolon [] cs unquoted
  obtain ⟨gap, blank, same⟩ := joinLines_semicolon front last
  refine ⟨gap, blank, ?_⟩
  rw [tidyLines, sealed, tidyLines, without]
  exact same

/-! Texts. -/

section
variable {cs : List Char} (unopened : Unopened cs)
include unopened

theorem not_comment_of_semicolon : ∀ t ∈ scan (cs ++ [';']), t.isComment = false := by
  rw [scan_semicolon unopened]
  refine List.forall_mem_append.mpr ⟨fun t member => ?_, List.forall_mem_singleton.mpr rfl⟩
  exact (isComment_of_scanFrom none unopened.closed t member).1

theorem plain_semicolon {piece : List Token} (inside : piece <:+: scan (cs ++ [';'])) :
    ∃ gap, (∀ c ∈ gap, isBlank c = true) ∧ plain (piece ++ [semicolon]) = plain piece ++ (gap ++ [';']) := by
  have code : ∀ t ∈ piece, t.isComment = false :=
    fun t member => not_comment_of_semicolon unopened t (inside.subset member)
  have last : ∀ t ∈ piece ++ [semicolon], t.isComment = false :=
    List.forall_mem_append.mpr ⟨code, List.forall_mem_singleton.mpr rfl⟩
  have unquoted {c : Char} (mark : c ∈ ['\x27', '\x22', '\x60', '$', '#']) (other : c ≠ ';') : c ∉ textOf piece := by
    intro member
    have part := textOf_infix inside
    have whole := part.subset member
    rw [textOf_scan, List.mem_append, List.mem_singleton] at whole
    exact whole.elim (unopened.not_mem mark) other
  have text : (piece ++ [semicolon]).flatMap (·.text) = textOf piece ++ [';'] := textOf_append piece [semicolon]
  rw [plain, plain, uncomment_of_no_comment _ last, uncomment_of_no_comment _ code, text]
  exact tidyLines_semicolon ⟨unquoted (by decide) (by decide), unquoted (by decide) (by decide)⟩

omit unopened in
theorem kept_of_code {tokens : List Token} (code : ∀ t ∈ tokens, t.isComment = false) : kept tokens = tokens :=
  List.filter_eq_self.mpr fun t member => by rw [code t member, Bool.not_false]

theorem isBlank_plain_of_spaces {piece : List Token} (inside : piece <:+: scan (cs ++ [';']))
    (spaces : piece.all (·.isSpace) = true) : ∀ c ∈ plain piece, isBlank c = true := by
  have blank : Blank piece := fun t member => (taken_of_scanFrom none _ t (inside.subset member)).blank
  have left : kept piece = piece :=
    kept_of_code fun t member => not_comment_of_semicolon unopened t (inside.subset member)
  have unseen : visible (plain piece) = [] := by
    rw [visible_plain piece blank, left, visible_of_spaces blank (List.all_eq_true.mp spaces)]
  simpa [visible] using unseen

/-- Only white space comes between the statements and the semicolon. -/
theorem flatMap_plain_semicolon : ∃ gap, (∀ c ∈ gap, isBlank c = true) ∧
    (split (scan (cs ++ [';']))).flatMap plain = (split (scan cs)).flatMap plain ++ (gap ++ [';']) := by
  obtain ⟨pieces, last, without, behind⟩ := splitFrom_semicolon {} [] (scan cs)
  change split (scan cs) = _ at without
  rw [← scan_semicolon unopened] at behind
  have sealed : last <:+: scan (cs ++ [';']) ∧ ∃ gap, (∀ c ∈ gap, isBlank c = true) ∧
      (split (scan (cs ++ [';']))).flatMap plain = pieces.flatMap plain ++ (plain last ++ (gap ++ [';'])) := by
    change split (scan (cs ++ [';'])) = _ ∨ split (scan (cs ++ [';'])) = _ at behind
    rcases behind with same | same
    · have inside : last <:+: scan (cs ++ [';']) :=
        (List.infix_append_left ..).trans (infix_of_mem_split (same ▸ List.mem_append_right _ (List.mem_singleton_self _)))
      obtain ⟨gap, blank, text⟩ := plain_semicolon unopened inside
      exact ⟨inside, gap, blank, by rw [same, List.flatMap_append, List.flatMap_singleton, text]⟩
    · have inside : last <:+: scan (cs ++ [';']) :=
        infix_of_mem_split (same ▸ List.mem_append_right _ (List.mem_cons_self ..))
      obtain ⟨gap, blank, text⟩ := plain_semicolon unopened List.nil_infix
      have nothing : plain [] = [] := by simp [plain, uncomment, piecesFrom, tidyLines, linesFrom, trimRight]
      rw [nothing, List.nil_append, List.nil_append] at text
      exact ⟨inside, gap, blank, by rw [same, List.flatMap_append, List.flatMap_cons, List.flatMap_singleton, text]⟩
  obtain ⟨inside, gap, blank, whole⟩ := sealed
  rw [whole, without]
  split
  next spaces =>
    refine ⟨plain last ++ gap, ?_, by rw [List.append_nil, List.append_assoc]⟩
    exact List.forall_mem_append.mpr ⟨isBlank_plain_of_spaces unopened inside spaces, blank⟩
  next =>
    refine ⟨gap, blank, ?_⟩
    rw [List.flatMap_append, List.flatMap_singleton, List.append_assoc]

theorem nesting_semicolons : ((split (scan (cs ++ [';']))).any fun tokens => nestingLimit < nesting tokens) =
    (split (scan cs)).any fun tokens => nestingLimit < nesting tokens := by
  obtain ⟨pieces, last, without, behind⟩ := splitFrom_semicolon {} [] (scan cs)
  have flat : decide (nestingLimit < nesting [semicolon]) = false := rfl
  rw [split, scan_semicolon unopened, split, without]
  have sealed : (splitFrom {} [] (scan cs ++ [semicolon])).any (fun tokens => nestingLimit < nesting tokens) =
      (pieces ++ [last]).any fun tokens => nestingLimit < nesting tokens := by
    rcases behind with same | same
    · rw [same, List.any_append, List.any_append, List.any_cons, List.any_cons, nesting_semicolon]
    · rw [same, List.any_append, List.any_append, List.any_cons, List.any_cons, List.any_cons, flat]
      rfl
  rw [sealed]
  split
  next spaces =>
    rw [List.any_append, List.append_nil, List.any_cons, nesting_of_spaces spaces]
    exact Bool.or_false _
  next => rfl

/-- White space in front of the semicolon is all that is put behind a text with it. -/
theorem plainText_semicolon : plainText (cs ++ [';']) = plainText cs ∧ (∃ i, plainText cs = .error i) ∨
    ∃ text gap, plainText cs = .ok text ∧ (∀ c ∈ gap, isBlank c = true) ∧
      plainText (cs ++ [';']) = .ok (text ++ (gap ++ [';'])) := by
  obtain ⟨gap, blank, whole⟩ := flatMap_plain_semicolon unopened
  unfold plainText
  dsimp only
  rw [nesting_semicolons unopened, whole]
  split
  · exact .inl ⟨rfl, _, rfl⟩
  · exact .inr ⟨_, gap, rfl, blank, rfl⟩

theorem visible_plainText_of_unopened {text : List Char} (found : plainText cs = .ok text) : visible text = visible cs := by
  have code : ∀ t ∈ scan cs, t.isComment = false :=
    fun t member => (isComment_of_scanFrom none unopened.closed t member).1
  rw [visible_plainText found, kept_of_code code, textOf_scan]

end

end SqlSchema.Statement
