import Mathlib.Data.List.Flatten
import SqlSchema.Proofs.Statement.Untouched

/-! What can be seen of a text without its comments. In Postgres it is what the other tokens show, in their order: white
space shows nothing, and neither cutting the text into statements nor tidying its lines takes anything away. -/
namespace SqlSchema.Statement
open Text Token

/-! First tokens. -/

theorem space_of_blank {c : Char} (blank : isBlank c = true) (rest : List Char) : (space (c :: rest)).isSome = true := by
  unfold space
  split
  · rfl
  next d more _ same =>
    cases same
    split <;> rfl
  next none => contradiction

theorem opensComment_of_blank {c : Char} (blank : isBlank c = true) (rest : List Char) :
    opensComment (c :: rest) = false := by
  by_contra opens
  have closed : opensWith c = false := closed_of_wordy (by rw [isWordOrBlank, blank, Bool.or_true])
  rw [opensWith_of_opensComment (Bool.not_eq_false _ ▸ opens)] at closed
  contradiction

theorem not_enclosing_of_blank {c : Char} (blank : isBlank c = true) : c ∉ enclosing := fun member =>
  absurd blank (by simp [(by decide : ∀ c ∈ enclosing, isBlank c = false) c member])

theorem leading_of_blank (before : Option Char) {c : Char} (blank : isBlank c = true) (rest : List Char) :
    leading before (c :: rest) = space (c :: rest) := by
  obtain ⟨token, found⟩ := Option.isSome_iff_exists.mp (space_of_blank blank rest)
  rw [leading_of_plain before (not_enclosing_of_blank blank) (opensComment_of_blank blank rest), found]
  rfl

/-- The marks of a block comment that is never closed are operators. -/
theorem leading_slash (before : Option Char) (body : List Char) : leading before ('/' :: '*' :: body) =
    (block ('/' :: '*' :: body) <|> some (.operator, '*' :: body)) := rfl

/-- What a token is taken for: code, white space, or a comment or a hint with its opening marks. -/
inductive Taken (t : Token) : Prop
  | code (code : isCode t.kind = true)
  | space (white : t.isSpace = true) (blank : ∀ c ∈ t.text, isBlank c = true)
  | remark (known : t.isComment = true ∨ t.isHint = true) (opens : opensComment t.text = true)

theorem taken_of_space {c : Char} {rest after : List Char} {kind : Token.Kind}
    (found : space (c :: rest) = some (kind, after)) : Taken ⟨kind, c :: rest.take (rest.length - after.length)⟩ := by
  unfold space at found
  split at found
  next more same =>
    cases same
    cases found
    exact .space rfl (by simp; decide)
  next d more _ same =>
    cases same
    split at found
    next ends =>
      cases found
      exact .space rfl (by simpa using isBlank_of_isLineEnd c ends)
    next =>
      split at found
      next blank =>
        cases found
        exact .space rfl (by simpa using blank)
      next => contradiction
  next none => contradiction

theorem taken_of_opens {before : Option Char} {c : Char} {rest after : List Char} {kind : Token.Kind}
    (opens : opensComment (c :: rest) = true) (found : leading before (c :: rest) = some (kind, after)) :
    Taken ⟨kind, c :: rest.take (rest.length - after.length)⟩ := by
  -- The second mark is part of the token.
  have marked (mark : Char) {body : List Char} (behind : after.length ≤ body.length) :
      ∃ more, (mark :: body).take ((mark :: body).length - after.length) = mark :: more := by
    obtain ⟨size, width⟩ : ∃ size, (mark :: body).length - after.length = size + 1 :=
      ⟨body.length - after.length, by rw [List.length_cons]; omega⟩
    exact ⟨body.take size, by rw [width, List.take_succ_cons]⟩
  have lined {mark : Char} {body : List Char} (split : rest = mark :: body)
      (marks : ∀ more, opensComment (c :: mark :: more) = true)
      (found : some (if body.head? = some '+' then Token.Kind.lineHint else .lineComment, afterLine body) =
        some (kind, after)) : Taken ⟨kind, c :: rest.take (rest.length - after.length)⟩ := by
    cases found
    obtain ⟨more, text⟩ := marked mark (suffix_afterLine body).length_le
    rw [split, text]
    refine .remark ?_ (marks more)
    split_ifs <;> simp [isComment, isHint]
  unfold opensComment at opens
  split at opens
  next body same =>
    cases same
    rw [leading_slash] at found
    rcases orElse_eq_some found with closed | unclosed
    · obtain ⟨reached, ended, same⟩ := Option.map_eq_some_iff.mp closed
      cases same
      obtain ⟨more, text⟩ := marked '*' (suffix_afterBlock ended).length_le
      rw [text]
      refine .remark ?_ rfl
      split_ifs <;> simp [isComment, isHint]
    · cases unclosed
      exact .code rfl
  next body same =>
    cases same
    exact lined rfl (fun _ => rfl) found
  next body same =>
    cases same
    exact lined rfl (fun _ => rfl) found
  next => contradiction

theorem taken_of_scanFrom (before : Option Char) (cs : List Char) : ∀ t ∈ scanFrom before cs, Taken t := by
  fun_induction scanFrom before cs with
  | case1 => exact List.forall_mem_nil _
  | case2 before c rest kind after found size text ih =>
    refine List.forall_mem_cons.mpr ⟨?_, ih⟩
    cases known : leading before (c :: rest) with
    | none =>
      rw [known] at found
      cases found
      exact .code rfl
    | some token =>
      rw [known, Option.getD_some] at found
      subst found
      cases opens : opensComment (c :: rest) with
      | true => exact taken_of_opens opens known
      | false =>
        rcases isCode_of_leading opens known with code | ⟨blank, _⟩
        · exact .code code
        · rw [leading_of_blank before blank] at known
          exact taken_of_space known

theorem Taken.blank {t : Token} (taken : Taken t) (white : t.isSpace = true) : ∀ c ∈ t.text, isBlank c = true := by
  obtain ⟨kind, text⟩ := t
  cases taken with
  | code code => cases kind <;> contradiction
  | space _ blank => exact blank
  | remark known _ => cases kind <;> simp_all [isComment, isHint, isSpace]

theorem Taken.opens {t : Token} (taken : Taken t) (comment : t.isComment = true) : opensComment t.text = true := by
  obtain ⟨kind, text⟩ := t
  cases taken with
  | code code => cases kind <;> contradiction
  | space white _ => cases kind <;> contradiction
  | remark _ opens => exact opens

/-! Lines. -/

theorem visible_trimRight (cs : List Char) : visible (trimRight cs) = visible cs := by
  obtain ⟨blanks, split, blank⟩ := trimRight_append cs
  conv_rhs => rw [split, visible_append, visible_of_blank blanks blank, List.append_nil]

theorem visible_joinLines (current cs : List Char) :
    visible (joinLines (linesFrom current cs)) = visible (current.reverse ++ cs) := by
  have line (ending current rest : List Char) (blank : ∀ c ∈ ending, isBlank c = true)
      (later : visible (joinLines (linesFrom [] rest)) = visible rest) :
      visible (joinLines (current.reverse :: linesFrom [] rest)) = visible (current.reverse ++ (ending ++ rest)) := by
    have feed : visible ['\n'] = [] := by decide
    rw [joinLines_cons _ _ (linesFrom_ne_nil [] rest), ← List.singleton_append, visible_append, visible_append,
      visible_trimRight, feed, later, visible_append, visible_append, visible_of_blank ending blank]
  fun_induction linesFrom current cs with
  | case1 current =>
    have last : joinLines [current.reverse] = trimRight current.reverse := List.intercalate_singleton ..
    rw [last, visible_trimRight, List.append_nil]
  | case2 current rest ih => exact line ['\r', '\n'] current rest (by decide) ih
  | case3 current c rest _ ends ih =>
    exact line [c] current rest (List.forall_mem_singleton.mpr (isBlank_of_isLineEnd c ends)) ih
  | case4 current c rest _ _ quote inside after closed ih =>
    rw [ih, Quoting.close_append _ _ _ _ closed]
    simp
  | case5 current c rest _ _ quote closed ih =>
    rw [ih]
    simp
  | case6 current c rest _ ends _ ih =>
    rw [ih]
    simp

theorem visible_tidyLines (cs : List Char) : visible (tidyLines cs) = visible cs := visible_joinLines [] cs

/-! Tokens. -/

/-- The tokens that are no comments. -/
def kept (tokens : List Token) : List Token := tokens.filter (!·.isComment)

theorem kept_append (front more : List Token) : kept (front ++ more) = kept front ++ kept more := List.filter_append ..

/-- Tokens of white space show nothing. -/
def Blank (tokens : List Token) : Prop := ∀ t ∈ tokens, t.isSpace = true → ∀ c ∈ t.text, isBlank c = true

theorem visible_of_spaces {tokens : List Token} (blank : Blank tokens) (spaces : ∀ t ∈ tokens, t.isSpace = true) :
    visible (textOf tokens) = [] := by
  refine visible_of_blank _ fun c member => ?_
  obtain ⟨t, among, inside⟩ := List.mem_flatMap.mp member
  exact blank t among (spaces t among) c inside

/-- Tokens that are comments or white space may be left out. -/
theorem visible_kept_dropWhile {tokens : List Token} (blank : Blank tokens) (p : Token → Bool)
    (known : ∀ t, p t = true → t.isComment = true ∨ t.isSpace = true) :
    visible (textOf (kept (tokens.dropWhile p))) = visible (textOf (kept tokens)) := by
  have hidden : visible (textOf (kept (tokens.takeWhile p))) = [] := by
    refine visible_of_spaces (fun t member => ?_) fun t member => ?_
    · exact blank t ((List.takeWhile_prefix p).subset (List.mem_filter.mp member).1)
    · obtain ⟨among, plain⟩ := List.mem_filter.mp member
      exact (known t (List.mem_takeWhile_imp among)).resolve_left (by simpa using plain)
  conv_rhs => rw [← List.takeWhile_append_dropWhile (p := p) (l := tokens), kept_append, textOf_append, visible_append,
    hidden, List.nil_append]

theorem visible_joinedRuns {tokens rest : List Token} {run : List Char} (blank : Blank tokens)
    (found : joinedRuns tokens = some (run, rest)) :
    visible (textOf (kept rest)) = visible (textOf (kept tokens)) := by
  have drop (p : Token → Bool) (known : ∀ t, p t = true → t.isComment = true ∨ t.isSpace = true) (left : List Token)
      (holds : Blank left ∧ visible (textOf (kept left)) = visible (textOf (kept tokens))) :
      Blank (left.dropWhile p) ∧ visible (textOf (kept (left.dropWhile p))) = visible (textOf (kept tokens)) :=
    ⟨fun t member => holds.1 t ((List.dropWhile_suffix p).subset member),
      (visible_kept_dropWhile holds.1 p known).trans holds.2⟩
  exact (of_joinedRuns (Q := fun left => Blank left ∧ visible (textOf (kept left)) = visible (textOf (kept tokens)))
    (drop inRun comment_or_space) (drop Token.isSpace fun _ => .inr) found ⟨blank, rfl⟩).2

theorem visible_remains (run : List Char) : visible (remains run) = [] := visible_of_blank _ isBlank_of_mem_remains

theorem visible_pieces (before : Option (List Char)) (tokens : List Token) (blank : Blank tokens) :
    visible (piecesFrom before tokens).flatten = visible (textOf (kept tokens)) := by
  have tail {t : Token} {rest : List Token} (blank : Blank (t :: rest)) : Blank rest := (List.forall_mem_cons.mp blank).2
  have skip {t : Token} (rest : List Token) (comment : t.isComment = true) : kept (t :: rest) = kept rest :=
    List.filter_cons_of_neg (by simp [comment])
  fun_induction piecesFrom before tokens with
  | case1 => rfl
  | case2 before t rest comment run after joined drops ih =>
    rw [ih fun u member => blank u ((suffix_of_joinedRuns joined).subset member), visible_joinedRuns blank joined]
  | case3 before t rest comment run after joined drops ih =>
    rw [List.flatten_cons, visible_append, visible_remains, List.nil_append,
      ih fun u member => blank u ((suffix_of_joinedRuns joined).subset member), visible_joinedRuns blank joined]
  | case4 before t rest comment joined drops ih => rw [ih (tail blank), skip rest comment]
  | case5 before t rest comment joined drops ih =>
    rw [List.flatten_cons, visible_append, visible_remains, List.nil_append, ih (tail blank), skip rest comment]
  | case6 before t rest uncommented ih =>
    have here : kept (t :: rest) = t :: kept rest := List.filter_cons_of_pos (by simpa using uncommented)
    have text : textOf (t :: kept rest) = t.text ++ textOf (kept rest) := List.flatMap_cons ..
    rw [List.flatten_cons, visible_append, ih (tail blank), here, text, visible_append]

theorem visible_plain (tokens : List Token) (blank : Blank tokens) :
    visible (plain tokens) = visible (textOf (kept tokens)) :=
  (visible_tidyLines _).trans (visible_pieces none tokens blank)

theorem visible_plainText {cs text : List Char} (found : plainText cs = .ok text) :
    visible text = visible (textOf (kept (scan cs))) := by
  have blank : Blank (scan cs) := fun t member => (taken_of_scanFrom none cs t member).blank
  unfold plainText at found
  dsimp only at found
  split at found
  · contradiction
  cases found
  have each (pieces : List (List Token)) (inside : ∀ piece ∈ pieces, Blank piece) :
      visible (pieces.flatMap plain) = visible (textOf (kept pieces.flatten)) := by
    induction pieces with
    | nil => rfl
    | cons piece more ih =>
      obtain ⟨here, later⟩ := List.forall_mem_cons.mp inside
      rw [List.flatMap_cons, List.flatten_cons, kept_append, textOf_append, visible_append, visible_append,
        visible_plain piece here, ih later]
  obtain ⟨blanks, spaces, whole⟩ := flatten_splitFrom {} [] (scan cs)
  rw [List.reverse_nil, List.nil_append] at whole
  have last : visible (textOf (kept blanks)) = [] := by
    refine visible_of_spaces (fun t member => blank t ?_) fun t member => spaces t (List.mem_filter.mp member).1
    rw [← whole]
    exact List.mem_append_right _ (List.mem_filter.mp member).1
  rw [each _ fun piece member t among => blank t ((infix_of_mem_split member).subset among)]
  conv_rhs => rw [← whole, kept_append, textOf_append, visible_append, last, List.append_nil]
  rfl

end SqlSchema.Statement
