import SqlSchema.Proofs.Statement.Kept
import SqlSchema.Proofs.Statement.Nesting
import SqlSchema.Proofs.Token.Lower

/-! Small letters leave the same statements, in small letters. One word is told from its small letters: a batch
separator `GO` only ends a statement in capitals. -/
namespace SqlSchema
open Text

namespace Token

@[simp] theorem isMark_lowered (t : Token) {c : Char} (sign : c.isAlpha = false) : t.lowered.isMark c = t.isMark c := by
  have same : (lower t.text == [c]) = (t.text == [c]) := by
    rw [Bool.eq_iff_iff, beq_iff_eq, beq_iff_eq]
    refine ⟨eq_of_lower [c] (by simpa using sign), fun here => ?_⟩
    rw [here, lower_cons, lower_nil, toLower_eq_self sign]
  rw [isMark, isMark, lowered, same]

@[simp] theorem isComment_lowered (t : Token) : t.lowered.isComment = t.isComment := rfl

@[simp] theorem isSpace_lowered (t : Token) : t.lowered.isSpace = t.isSpace := rfl

theorem textOf_lowered (tokens : List Token) : textOf (tokens.map lowered) = lower (textOf tokens) := by
  rw [textOf, textOf, lower, List.map_flatMap, List.flatMap_map]
  rfl

end Token

namespace Statement
open Token

/-! Statements are cut at the same places. -/

/-- A batch separator. -/
def separates (t : Token) : Bool := t.kind == .keyword .general && firstWord t.text == ['G', 'O']

theorem separates_lowered (t : Token) : separates t.lowered = false := by
  have small : lower (firstWord t.text) ≠ ['G', 'O'] := by
    intro same
    have twice := congrArg lower same
    rw [lower_lower, same] at twice
    exact absurd twice (by decide)
  have other : (firstWord (lower t.text) == ['G', 'O']) = false := by
    rw [firstWord_lower]
    exact beq_false_of_ne small
  rw [separates, lowered, other, Bool.and_false]

theorem afterKeyword_lower (s : Depth) (role : Role) (word : List Char) :
    s.afterKeyword role (lower word) = s.afterKeyword role word := by
  rw [Depth.afterKeyword, Depth.afterKeyword, upper_lower]

theorem change_lowered (s : Depth) (t : Token) : s.change t.lowered = s.change t := by
  have opening : t.lowered.isMark '(' = t.isMark '(' := isMark_lowered t (by decide)
  have closing : t.lowered.isMark ')' = t.isMark ')' := isMark_lowered t (by decide)
  unfold Depth.change
  rw [opening, closing]
  cases found : t.kind with
  | keyword role => simp only [lowered, found, afterKeyword_lower]
  | _ => simp only [lowered, found]

theorem close_lowered (s : Depth) (t : Token) (usual : separates t = false) : s.close t.lowered = s.close t := by
  have mark : t.lowered.isMark ';' = t.isMark ';' := isMark_lowered t (by decide)
  have go (t : Token) :
      (decide (t.kind = .keyword .general) && decide (firstWord t.text = ['G', 'O'])) = separates t := by
    rw [Bool.eq_iff_iff]
    simp [separates]
  have begins : upper t.lowered.text = upper t.text := upper_lower t.text
  unfold Depth.close
  rw [mark, go, go, separates_lowered, usual, begins, isSpace_lowered, isComment_lowered]
  rfl

theorem next_lowered (s : Depth) (t : Token) (usual : separates t = false) : s.next t.lowered = s.next t := by
  rw [Depth.next, Depth.next, change_lowered, close_lowered _ t usual]

theorem splitFrom_lowered (s : Depth) (current tokens : List Token) (usual : ∀ t ∈ tokens, separates t = false) :
    splitFrom s (current.map lowered) (tokens.map lowered) = (splitFrom s current tokens).map (List.map lowered) := by
  induction tokens generalizing s current with
  | nil =>
    have blank : (current.map lowered).all (·.isSpace) = current.all (·.isSpace) := List.all_map
    rw [List.map_nil, splitFrom, splitFrom, blank]
    split
    · rfl
    · rw [← List.map_reverse]
      rfl
  | cons t rest ih =>
    obtain ⟨here, later⟩ := List.forall_mem_cons.mp usual
    have same : trails t.lowered = trails t := rfl
    rw [List.map_cons, splitFrom, splitFrom, same, next_lowered _ t here, next_lowered _ t here]
    split
    · rw [List.map_cons, List.map_reverse, ← ih _ [t] later]
      rfl
    · exact ih _ (t :: current) later

theorem split_lowered (tokens : List Token) (usual : ∀ t ∈ tokens, separates t = false) :
    split (tokens.map lowered) = (split tokens).map (List.map lowered) := splitFrom_lowered {} [] tokens usual

theorem nesting_lowered (tokens : List Token) : nesting (tokens.map lowered) = nesting tokens := by
  have from_ (deepest : Nat) (inside : List Nat) :
      nestingFrom deepest inside (tokens.map lowered) = nestingFrom deepest inside tokens := by
    induction tokens generalizing deepest inside with
    | nil => rfl
    | cons t rest ih =>
      rw [List.map_cons, nestingFrom.eq_def, nestingFrom.eq_def]
      simp only [isMark_lowered t (show '('.isAlpha = false by decide),
        isMark_lowered t (show ')'.isAlpha = false by decide), ih]
  exact from_ 0 []

/-! Comments are dropped alike. -/

theorem remains_lower (run : List Char) : remains (lower run) = lower (remains run) := by
  unfold remains
  rw [← lower_reverse, takeWhile_lower caseless_isLineEnd, ← lower_reverse]
  cases ((run.reverse.takeWhile isLineEnd).reverse) <;> rfl

theorem takeWhile_lowered {p : Token → Bool} (same : ∀ t, p t.lowered = p t) (tokens : List Token) :
    (tokens.map lowered).takeWhile p = (tokens.takeWhile p).map lowered := by
  rw [List.takeWhile_map]
  exact congrArg (fun q => (tokens.takeWhile q).map lowered) (funext same)

theorem dropWhile_lowered {p : Token → Bool} (same : ∀ t, p t.lowered = p t) (tokens : List Token) :
    (tokens.map lowered).dropWhile p = (tokens.dropWhile p).map lowered := by
  rw [List.dropWhile_map]
  exact congrArg (fun q => (tokens.dropWhile q).map lowered) (funext same)

theorem leadingRun_lowered (tokens : List Token) :
    leadingRun (tokens.map lowered) = (leadingRun tokens).map (Prod.map lower (List.map lowered)) := by
  cases tokens with
  | nil => rfl
  | cons t rest =>
    have behind := dropWhile_lowered (p := inRun) (fun _ => rfl) (t :: rest)
    have front := takeWhile_lowered (p := inRun) (fun _ => rfl) (t :: rest)
    have text := textOf_lowered ((t :: rest).takeWhile inRun)
    rw [textOf, textOf] at text
    rw [List.map_cons] at behind front ⊢
    rw [leadingRun, leadingRun, behind, front, isComment_lowered]
    split
    · cases (t :: rest).dropWhile inRun with
      | nil => rfl
      | cons u more =>
        rw [List.map_cons]
        dsimp only
        rw [text]
        rfl
    · rfl

theorem joinedRuns_of_none {tokens : List Token} (none : leadingRun tokens = none) : joinedRuns tokens = .none := by
  rw [joinedRuns]
  split
  next => rfl
  next found =>
    rw [none] at found
    contradiction

theorem joinedRuns_of_some {tokens rest : List Token} {run : List Char} (first : leadingRun tokens = some (run, rest)) :
    joinedRuns tokens =
      some (match joinedRuns (rest.dropWhile (·.isSpace)) with
        | none => (run, rest)
        | some (more, after) => (run ++ (rest.takeWhile (·.isSpace)).flatMap (·.text) ++ more, after)) := by
  rw [joinedRuns]
  split
  next missing =>
    rw [first] at missing
    contradiction
  next found =>
    cases first.symm.trans found
    cases joinedRuns (rest.dropWhile (·.isSpace)) <;> rfl

theorem joinedRuns_lowered (tokens : List Token) :
    joinedRuns (tokens.map lowered) = (joinedRuns tokens).map (Prod.map lower (List.map lowered)) := by
  fun_induction joinedRuns tokens with
  | case1 tokens none => exact joinedRuns_of_none (by rw [leadingRun_lowered, none]; rfl)
  | case2 tokens text after first none ih =>
    have small : leadingRun (tokens.map lowered) = some (lower text, after.map lowered) := by
      rw [leadingRun_lowered, first]
      rfl
    rw [none, ← dropWhile_lowered isSpace_lowered] at ih
    rw [joinedRuns_of_some small, ih]
    rfl
  | case3 tokens text after first more beyond joined ih =>
    have small : leadingRun (tokens.map lowered) = some (lower text, after.map lowered) := by
      rw [leadingRun_lowered, first]
      rfl
    have gap := textOf_lowered (after.takeWhile Token.isSpace)
    rw [textOf, textOf, ← takeWhile_lowered isSpace_lowered] at gap
    rw [joined, ← dropWhile_lowered isSpace_lowered] at ih
    rw [joinedRuns_of_some small, ih]
    simp [gap]

section
variable {before : Option (List Char)} {t : Token} {rest : List Token}

theorem piecesFrom_of_code (code : t.isComment = false) :
    piecesFrom before (t :: rest) = t.text :: piecesFrom (some t.text) rest := by
  rw [piecesFrom, code, if_neg Bool.false_ne_true]

theorem piecesFrom_of_joined {after : List Token} {run : List Char} (comment : t.isComment = true)
    (joined : joinedRuns (t :: rest) = some (run, after)) :
    piecesFrom before (t :: rest) =
      if dropsAfter before then piecesFrom before after else remains run :: piecesFrom (some (remains run)) after := by
  rw [piecesFrom, if_pos comment]
  split
  next found =>
    cases joined.symm.trans found
    rfl
  next missing =>
    rw [joined] at missing
    contradiction

theorem piecesFrom_of_last (comment : t.isComment = true) (last : joinedRuns (t :: rest) = none) :
    piecesFrom before (t :: rest) =
      if dropsAfter before then piecesFrom before rest
      else remains t.text :: piecesFrom (some (remains t.text)) rest := by
  rw [piecesFrom, if_pos comment]
  split
  next found =>
    rw [last] at found
    contradiction
  next => rfl

end

theorem dropsAfter_lower (before : Option (List Char)) : dropsAfter (before.map lower) = dropsAfter before := by
  cases before with
  | none => rfl
  | some piece =>
    have opening : lower piece = ['('] ↔ piece = ['('] := by
      refine ⟨eq_of_lower ['('] (by decide), fun here => ?_⟩
      rw [here]
      rfl
    simp [dropsAfter, opening]

theorem piecesFrom_lowered (before : Option (List Char)) (tokens : List Token) :
    piecesFrom (before.map lower) (tokens.map lowered) = (piecesFrom before tokens).map lower := by
  have joins {t : Token} {rest after : List Token} {run : List Char}
      (joined : joinedRuns (t :: rest) = some (run, after)) :
      joinedRuns (t.lowered :: rest.map lowered) = some (lower run, after.map lowered) := by
    rw [← List.map_cons, joinedRuns_lowered, joined]
    rfl
  have lasts {t : Token} {rest : List Token} (last : joinedRuns (t :: rest) = none) :
      joinedRuns (t.lowered :: rest.map lowered) = none := by
    rw [← List.map_cons, joinedRuns_lowered, last]
    rfl
  fun_induction piecesFrom before tokens with
  | case1 => rw [List.map_nil, piecesFrom, List.map_nil]
  | case2 before t rest comment run after joined drops ih =>
    rw [List.map_cons, piecesFrom_of_joined ((isComment_lowered t).trans comment) (joins joined), dropsAfter_lower,
      if_pos drops, ih]
  | case3 before t rest comment run after joined keeps ih =>
    rw [List.map_cons, piecesFrom_of_joined ((isComment_lowered t).trans comment) (joins joined), dropsAfter_lower,
      if_neg keeps, remains_lower, List.map_cons, ← ih]
    rfl
  | case4 before t rest comment last drops ih =>
    rw [List.map_cons, piecesFrom_of_last ((isComment_lowered t).trans comment) (lasts last), dropsAfter_lower,
      if_pos drops, ih]
  | case5 before t rest comment last keeps ih =>
    have text : remains t.lowered.text = lower (remains t.text) := remains_lower t.text
    rw [List.map_cons, piecesFrom_of_last ((isComment_lowered t).trans comment) (lasts last), dropsAfter_lower,
      if_neg keeps, text, List.map_cons, ← ih]
    rfl
  | case6 before t rest code ih =>
    rw [List.map_cons, piecesFrom_of_code (Bool.not_eq_true _ ▸ code), List.map_cons, ← ih]
    rfl

theorem uncomment_lowered (tokens : List Token) : uncomment (tokens.map lowered) = lower (uncomment tokens) := by
  have same : piecesFrom none (tokens.map lowered) = (piecesFrom none tokens).map lower :=
    piecesFrom_lowered none tokens
  rw [uncomment, uncomment, same, lower, List.map_flatten]
  rfl

/-! Lines and number signs. -/

theorem linesFrom_lower (current cs : List Char) :
    linesFrom (lower current) (lower cs) = (linesFrom current cs).map lower := by
  have quote (c : Char) : (c.toLower = '\x27' ∨ c.toLower = '\x22') ↔ (c = '\x27' ∨ c = '\x22') := by
    rw [toLower_eq_iff (by decide), toLower_eq_iff (by decide)]
  have own (c : Char) (mark : c = '\x27' ∨ c = '\x22') : c.isAlpha = false := by
    rcases mark with rfl | rfl <;> decide
  fun_induction linesFrom current cs with
  | case1 current => rw [lower_nil, linesFrom, ← lower_reverse, List.map_singleton]
  | case2 current rest ih =>
    have feed : lower ('\r' :: '\n' :: rest) = '\r' :: '\n' :: lower rest := rfl
    rw [feed, linesFrom, ← lower_reverse, List.map_cons, ← ih, lower_nil]
  | case3 current c rest pair ended ih =>
    rw [lower_cons, linesFrom, caseless_isLineEnd.lowered, if_pos ended, ← lower_reverse, List.map_cons, ← ih,
      lower_nil]
    exact not_pair_lower (by decide) (by decide) pair
  | case4 current c rest pair open_ mark inside after closed ih =>
    have small : Quoting.close ⟨c, .inLine, false⟩ (lower rest) = some (lower inside, lower after) := by
      rw [Quoting.close_lower _ (own c mark), closed]
      rfl
    rw [lower_cons, linesFrom, caseless_isLineEnd.lowered, if_neg open_, if_pos ((quote c).mpr mark),
      toLower_eq_self (own c mark)]
    · split
      next found =>
        cases small.symm.trans found
        rw [← ih, lower_append, lower_cons, lower_reverse, lower_cons, toLower_eq_self (own c mark)]
      next missing =>
        cases small.symm.trans missing
    · exact not_pair_lower (by decide) (by decide) pair
  | case5 current c rest pair open_ mark closed ih =>
    have small : Quoting.close ⟨c, .inLine, false⟩ (lower rest) = none := by
      rw [Quoting.close_lower _ (own c mark), closed]
      rfl
    rw [lower_cons, linesFrom, caseless_isLineEnd.lowered, if_neg open_, if_pos ((quote c).mpr mark),
      toLower_eq_self (own c mark)]
    · split
      next found =>
        cases small.symm.trans found
      next => rw [← ih, lower_cons, toLower_eq_self (own c mark)]
    · exact not_pair_lower (by decide) (by decide) pair
  | case6 current c rest pair open_ other ih =>
    rw [lower_cons, linesFrom, caseless_isLineEnd.lowered, if_neg open_, if_neg (mt (quote c).mp other), ← ih,
      lower_cons]
    exact not_pair_lower (by decide) (by decide) pair

theorem joinLines_lower (lines : List (List Char)) : joinLines (lines.map lower) = lower (joinLines lines) := by
  induction lines with
  | nil => rfl
  | cons line more ih =>
    by_cases last : more = []
    · have single (line : List Char) : joinLines [line] = trimRight line := List.intercalate_singleton ..
      rw [last, List.map_singleton, single, single, trimRight_lower]
    · have further : more.map lower ≠ [] := mt List.map_eq_nil_iff.mp last
      rw [List.map_cons, joinLines_cons _ _ further, joinLines_cons _ _ last, ih, trimRight_lower, lower_append,
        lower_cons, toLower_eq_self (by decide)]

theorem tidyLines_lower (cs : List Char) : tidyLines (lower cs) = lower (tidyLines cs) := by
  have same : linesFrom [] (lower cs) = (linesFrom [] cs).map lower := linesFrom_lower [] cs
  have whole (cs : List Char) : tidyLines cs = joinLines (linesFrom [] cs) := rfl
  rw [whole, whole, same, joinLines_lower]

theorem cutHashes_lower (cs : List Char) : cutHashes (lower cs) = lower (cutHashes cs) := by
  have caseless : Caseless isHashQuote := caseless_of_ascii (by decide)
  have own (c : Char) (quote : isHashQuote c = true) : c.isAlpha = false := by
    simp only [isHashQuote, Bool.or_eq_true, beq_iff_eq, or_assoc] at quote
    rcases quote with rfl | rfl | rfl <;> decide
  fun_induction cutHashes cs with
  | case1 => rw [lower_nil, cutHashes]
  | case2 c rest quote inside after closed ih =>
    have small : (hashQuoting c).close (lower rest) = some (lower inside, lower after) := by
      rw [Quoting.close_lower _ (own c quote), closed]
      rfl
    rw [lower_cons, cutHashes, caseless.lowered, if_pos quote, toLower_eq_self (own c quote)]
    split
    next found =>
      cases small.symm.trans found
      rw [ih]
      simp [toLower_eq_self (own c quote)]
    next missing =>
      cases small.symm.trans missing
  | case3 c rest quote closed ih =>
    have small : (hashQuoting c).close (lower rest) = none := by
      rw [Quoting.close_lower _ (own c quote), closed]
      rfl
    rw [lower_cons, cutHashes, caseless.lowered, if_pos quote, toLower_eq_self (own c quote)]
    split
    next found =>
      cases small.symm.trans found
    next => rw [ih, lower_cons, toLower_eq_self (own c quote)]
  | case4 rest quote ih =>
    have open_ : Caseless (· != '\n') := caseless_of_ascii (by decide)
    rw [lower_cons, cutHashes, caseless.lowered, if_neg quote, toLower_eq_self (by decide), if_pos rfl,
      dropWhile_lower open_, ih]
  | case5 c rest quote other ih =>
    rw [lower_cons, cutHashes, caseless.lowered, if_neg quote, if_neg (mt (toLower_eq_iff (by decide)).mp other), ih,
      lower_cons]

/-- What is left of a text without a batch separator is in small letters what is left of its small letters. -/
theorem strip_lower (d : Dialect) {cs : List Char} (free : '$' ∉ cs) (usual : ∀ t ∈ scan cs, separates t = false) :
    strip d (lower cs) = (strip d cs).map lower := by
  have statements : split (scan (lower cs)) = (split (scan cs)).map (List.map lowered) := by
    rw [scan_lower cs free, split_lowered _ usual]
  have depth : ((split (scan cs)).map (List.map lowered)).any (fun tokens => nestingLimit < nesting tokens) =
      (split (scan cs)).any fun tokens => nestingLimit < nesting tokens := by
    rw [List.any_map]
    exact congrArg (List.any _) (funext fun tokens => by rw [Function.comp_apply, nesting_lowered])
  have texts : ((split (scan cs)).map (List.map lowered)).flatMap plain = lower ((split (scan cs)).flatMap plain) := by
    rw [List.flatMap_map, lower, List.map_flatMap]
    exact congrArg (List.flatMap · _) (funext fun tokens => by
      rw [plain, plain, uncomment_lowered, tidyLines_lower, lower])
  have whole : plainText (lower cs) = (plainText cs).map lower := by
    unfold plainText
    rw [statements]
    dsimp only
    rw [depth, texts]
    split <;> rfl
  rw [strip, strip, whole]
  cases plainText cs with
  | error i => rfl
  | ok text =>
    simp only [Except.map, ← trim_lower]
    split
    · rw [cutHashes_lower]
    · rfl

end Statement
end SqlSchema
