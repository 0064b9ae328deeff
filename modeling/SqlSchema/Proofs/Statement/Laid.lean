import SqlSchema.Proofs.Reader.Squeezed
import SqlSchema.Proofs.Statement.Comments

/-! Texts laid out with gaps and comments between their words. Where every comment stands behind a gap, all that
comments and tidy lines leave of the text is the text without its comments, as far as squeezing tells. -/
namespace SqlSchema.Statement
open Text Token Reader Reader.Cursor

/-- Printable characters but quotes, and but those that open what is enclosed, comments and statements of their own. -/
def isInk (c : Char) : Bool :=
  0x21 ≤ c.toNat && c.toNat ≤ 0x7e && !(['\x27', '\x22', '\x60', '#', '$', '[', ';'].contains c)

/-- Characters of gaps and of what stands between them. -/
def Inked (c : Char) : Prop := isGap c = true ∨ isInk c = true

instance (c : Char) : Decidable (Inked c) := inferInstanceAs (Decidable (_ ∨ _))

namespace Inked
variable {c : Char}

theorem ascii (inked : Inked c) : c.toNat < 128 := by
  rcases inked with gap | ink
  · simp only [isGap, Bool.or_eq_true, beq_iff_eq, or_assoc] at gap
    rcases gap with rfl | rfl | rfl | rfl <;> decide
  · simp only [isInk, Bool.and_eq_true, decide_eq_true_eq] at ink
    omega

theorem blank (inked : Inked c) : isBlank c = isGap c :=
  forall_ascii (P := fun c => Inked c → isBlank c = isGap c) (by decide) c inked.ascii inked

theorem unquoted (inked : Inked c) : isHashQuote c = false :=
  forall_ascii (P := fun c => Inked c → isHashQuote c = false) (by decide) c inked.ascii inked

theorem free (inked : Inked c) : c ∉ '#' :: ';' :: quotes ++ enclosing :=
  forall_ascii (P := fun c => Inked c → c ∉ '#' :: ';' :: quotes ++ enclosing) (by decide) c inked.ascii inked

end Inked

theorem isGap_of_isInk {c : Char} (ink : isInk c = true) : isGap c = false :=
  forall_ascii (P := fun c => isInk c = true → isGap c = false) (by decide) c (Inked.ascii (.inr ink)) ink

/-- What looks the same once squeezed is made of the same characters. -/
theorem inked_of_squeezed {gapped : Bool} {cs code : List Char} (same : squeezed gapped cs = squeezed gapped code)
    (inked : ∀ c ∈ code, Inked c) : ∀ c ∈ cs, Inked c := by
  intro c member
  cases gap : isGap c with
  | true => exact .inl gap
  | false =>
    have seen : c ∈ squeezed gapped cs := (mem_squeezed gap).mpr member
    rw [same, mem_squeezed gap] at seen
    exact inked c seen

theorem isGap_of_isLineEnd (c : Char) (ends : isLineEnd c = true) : isGap c = true := by
  simp only [isLineEnd, Bool.or_eq_true, beq_iff_eq] at ends
  rcases ends with rfl | rfl <;> rfl

theorem gap_remains (run : List Char) : Gap (remains run) := by
  intro c member
  rcases mem_remains member with rfl | ended
  · rfl
  · exact isGap_of_isLineEnd c ended

/-! Lines. -/

section Lines
variable {gapped : Bool} {current cs rest : List Char}

theorem squeezed_line (ending : List Char) (ends : Gap ending) (filled : ending ≠ []) (inked : ∀ c ∈ current, Inked c)
    (later : squeezed true (joinLines (linesFrom [] rest)) = squeezed true rest) :
    squeezed gapped (joinLines (current :: linesFrom [] rest)) = squeezed gapped (current ++ (ending ++ rest)) := by
  obtain ⟨blanks, split, blank⟩ := trimRight_append current
  have gap : Gap (blanks ++ ending) := by
    refine Gap.append (fun c member => ?_) ends
    rw [← (inked c (by rw [split]; exact List.mem_append_right _ member)).blank]
    exact blank c member
  rw [joinLines_cons _ _ (linesFrom_ne_nil [] rest)]
  conv_rhs => rw [split, List.append_assoc, ← List.append_assoc blanks]
  refine squeezed_congr rfl ?_
  rw [squeezed_gap_of_filled gap (by simp [filled]), squeezed_of_gap (isGap_of_isLineEnd '\n' (by decide)), later]

/-- Lines are trimmed in front of gaps only, if there is none at the end. -/
theorem squeezed_linesFrom (inked : ∀ c ∈ current.reverse ++ cs, Inked c)
    (closed : ∀ c, (current.reverse ++ cs).getLast? = some c → isGap c = false) :
    squeezed gapped (joinLines (linesFrom current cs)) = squeezed gapped (current.reverse ++ cs) := by
  have behind (front : List Char) {rest : List Char}
      (closed : ∀ c, (front ++ rest).getLast? = some c → isGap c = false) :
      ∀ c, ([].reverse ++ rest).getLast? = some c → isGap c = false := by
    intro c last
    have final : rest.getLast? = some c := last
    exact closed c (by rw [List.getLast?_append, final, Option.some_or])
  fun_induction linesFrom current cs generalizing gapped with
  | case1 current =>
    rw [List.append_nil] at closed inked ⊢
    have last : joinLines [current.reverse] = trimRight current.reverse := List.intercalate_singleton ..
    rw [last, trimRight_eq_self]
    intro c final
    rw [(inked c (List.mem_of_getLast? final)).blank]
    exact closed c final
  | case2 current rest ih =>
    obtain ⟨front, later⟩ := List.forall_mem_append.mp inked
    have more : ∀ c ∈ rest, Inked c := fun c member => later c (by simp [member])
    have both : Gap ['\r', '\n'] := by decide
    exact squeezed_line _ both (List.cons_ne_nil _ _) front
      (ih more (behind (current.reverse ++ ['\r', '\n']) (by simpa using closed)))
  | case3 current c rest _ ends ih =>
    obtain ⟨front, later⟩ := List.forall_mem_append.mp inked
    have more : ∀ c ∈ rest, Inked c := fun c member => later c (by simp [member])
    have single : Gap [c] := List.forall_mem_singleton.mpr (isGap_of_isLineEnd c ends)
    exact squeezed_line _ single (List.cons_ne_nil _ _) front
      (ih more (behind (current.reverse ++ [c]) (by simpa using closed)))
  | case4 current c rest _ _ quote _ _ _ ih | case5 current c rest _ _ quote _ ih =>
    have usual := (inked c (by simp)).unquoted
    rcases quote with rfl | rfl <;> exact absurd usual (by decide)
  | case6 current c rest _ _ _ ih =>
    have whole : (c :: current).reverse ++ rest = current.reverse ++ c :: rest := by simp
    rw [whole] at ih
    exact ih inked closed

end Lines

/-! Layouts. -/

/-- A text with every comment behind a gap, or behind what is laid out before, and the text without its comments. -/
inductive Laid : Bool → List Char → List Char → Prop
  | nil {gapped} : Laid gapped [] []
  | char {gapped c rest code} (inked : Inked c) (quiet : opensComment (c :: rest) = false)
    (laid : Laid (isGap c) rest code) : Laid gapped (c :: rest) (c :: code)
  | line {body code} (usual : body.head? ≠ some '+') (laid : Laid true (afterLine body) code) :
    Laid true ('-' :: '-' :: body) code
  | block {body after code} (closed : afterBlock body = some after) (usual : body.head? ≠ some '+')
    (laid : Laid true after code) : Laid true ('/' :: '*' :: body) code

namespace Laid
variable {gapped : Bool} {cs code : List Char}

theorem gapped_of_opens (laid : Laid gapped cs code) (opens : opensComment cs = true) : gapped = true := by
  cases laid with
  | nil => contradiction
  | char _ quiet _ =>
    rw [quiet] at opens
    contradiction
  | line | block => rfl

/-- Such a text is calm. -/
theorem calm (laid : Laid gapped cs code) : Calm false cs (visible code) := by
  have dashes : ['-', '-'] ∈ [['-', '-'], ['#', ' ']] := by decide
  induction laid with
  | nil => exact .nil
  | @char _ c rest code inked quiet laid ih =>
    have free := inked.free
    have other : c ≠ '#' := by
      rintro rfl
      exact free (by decide)
    have plain : c ∉ enclosing := fun member => free (List.mem_append_right _ member)
    have still : hashed false c = false := by simpa [hashed] using other
    have gap : opensComment rest = true → isBlank c = true := fun opens =>
      inked.blank.trans (laid.gapped_of_opens opens)
    have whole := Calm.char plain quiet gap (still ▸ ih)
    rw [shown_of_ne other, ← visible_append] at whole
    exact whole
  | line usual _ ih => exact .line dashes usual ih
  | block closed usual _ ih => exact .block closed usual ih

theorem plain {c : Char} {rest : List Char} (quiet : opensComment (c :: rest) = false)
    (laid : Laid gapped (c :: rest) code) : Inked c ∧ ∃ more, Laid (isGap c) rest more ∧ code = c :: more := by
  cases laid with
  | char inked _ laid => exact ⟨inked, _, laid, rfl⟩
  | line | block => contradiction

/-- A token leaves a layout behind it. -/
theorem behind {taken after : List Char} (tight : Tight taken)
    (quiet : taken ≠ [] → opensComment (taken ++ after) = false) (laid : Laid gapped (taken ++ after) code) :
    (∀ c ∈ taken, Inked c) ∧ ∃ more, Laid (gappedBy gapped taken) after more ∧ code = taken ++ more := by
  induction taken generalizing gapped code with
  | nil => exact ⟨List.forall_mem_nil _, code, laid, rfl⟩
  | cons c taken ih =>
    obtain ⟨inked, more, behind, rfl⟩ := plain (quiet (List.cons_ne_nil c taken)) laid
    have apart : taken ≠ [] → opensComment (taken ++ after) = false := by
      intro filled
      by_contra opens
      rw [Bool.not_eq_false] at opens
      have blank := inked.blank.trans (behind.gapped_of_opens opens)
      exact tight.quiet filled blank opens
    obtain ⟨all, further, beyond, rfl⟩ := ih tight.tail apart behind
    exact ⟨List.forall_mem_cons.mpr ⟨inked, all⟩, further, beyond, rfl⟩

end Laid

/-! Tokens. -/

/-- What tokens of a layout look like that are no comments. -/
structure Plain (t : Token) : Prop where
  filled : t.text ≠ []
  inked : ∀ c ∈ t.text, Inked c
  comment : t.isComment = false
  space : t.isSpace = true → Gap t.text
  closing : ends t = true → ∀ c, t.text.getLast? = some c → isGap c = false

theorem plain_of_coded {t : Token} (coded : Coded t) (filled : t.text ≠ []) (inked : ∀ c ∈ t.text, Inked c) :
    Plain t where
  filled := filled
  inked := inked
  comment := coded.plain
  space := fun white c member => (inked c member).blank.symm.trans (coded.blank white c member)
  closing := fun ending c last =>
    (inked c (List.mem_of_getLast? last)).blank.symm.trans (coded.closing ending c last)

/-- Tokens with every comment behind a gap, and their text without the comments. -/
inductive Parted : Bool → List Token → List Char → Prop
  | nil {gapped} : Parted gapped [] []
  | comment {t rest code} (comment : t.isComment = true) (parted : Parted true rest code) : Parted true (t :: rest) code
  | plain {gapped t rest code} (plain : Plain t) (parted : Parted (gappedBy gapped t.text) rest code) :
    Parted gapped (t :: rest) (t.text ++ code)

theorem Laid.parted {gapped : Bool} {cs code : List Char} (laid : Laid gapped cs code) (before : Option Char) :
    Parted gapped (scanFrom before cs) code := by
  induction size : cs.length using Nat.strongRecOn generalizing gapped cs code before with
  | ind n ih =>
    have dashes : ['-', '-'] ∈ [['-', '-'], ['#', ' ']] := by decide
    have skip {after code : List Char} (found : Leads (·.isComment = true) before cs after)
        (laid : Laid true after code) : Parted true (scanFrom before cs) code := by
      obtain ⟨t, comment, split, scanned⟩ := found
      rw [scanned]
      exact .comment comment (ih _ (size ▸ split.shorter) laid t.text.getLast? rfl)
    cases laid with
    | nil =>
      rw [scanFrom]
      exact .nil
    | @char _ c rest code inked quiet laid =>
      have whole : Laid gapped (c :: rest) (c :: code) := .char inked quiet laid
      have plain : c ∉ enclosing := fun member => inked.free (List.mem_append_right _ member)
      have unzoned := timeZone_of_zoneless _ whole.calm.zoneless
      obtain ⟨after, t, coded, split, scanned⟩ := leads_plain before plain quiet unzoned
      rw [split.whole] at whole quiet
      obtain ⟨all, more, behind, same⟩ := whole.behind coded.tight fun _ => quiet
      rw [scanned, same]
      exact .plain (plain_of_coded coded split.filled all) (ih _ (size ▸ split.shorter) behind t.text.getLast? rfl)
    | line usual laid => exact skip (leads_line before dashes usual) laid
    | block closed usual laid => exact skip (leads_block before closed usual) laid

namespace Parted
variable {gapped : Bool} {tokens front more : List Token} {code : List Char} {t : Token}

theorem inked (parted : Parted gapped tokens code) : ∀ c ∈ code, Inked c := by
  induction parted with
  | nil => exact List.forall_mem_nil _
  | comment _ _ ih => exact ih
  | plain plain _ ih => exact List.forall_mem_append.mpr ⟨plain.inked, ih⟩

theorem split (parted : Parted gapped (front ++ more) code) :
    ∃ first second, Parted gapped front first ∧ Parted (gappedBy gapped first) more second ∧
      code = first ++ second := by
  induction front generalizing gapped code with
  | nil => exact ⟨[], code, .nil, parted, rfl⟩
  | cons t front ih =>
    rw [List.cons_append] at parted
    cases parted with
    | comment comment parted =>
      obtain ⟨first, second, one, two, rfl⟩ := ih parted
      exact ⟨first, second, .comment comment one, two, rfl⟩
    | plain plain parted =>
      obtain ⟨first, second, one, two, rfl⟩ := ih parted
      exact ⟨_, second, .plain plain one, by rwa [gappedBy_append], (List.append_assoc ..).symm⟩

theorem code_nil (parted : Parted gapped [] code) : code = [] := by
  cases parted
  rfl

/-- The token is no comment and does not end with a gap. -/
def Closing (t : Token) : Prop := t.isComment = false ∧ ∀ c, t.text.getLast? = some c → isGap c = false

/-- Whether a gap stands behind the tokens is told by the last of them. -/
theorem gappedBy_iff (parted : Parted gapped tokens code) (last : tokens.getLast? = some t) :
    gappedBy gapped code = false ↔ Closing t := by
  obtain ⟨front, rfl⟩ := List.getLast?_eq_some_iff.mp last
  obtain ⟨first, second, _, two, rfl⟩ := parted.split
  rw [gappedBy_append]
  generalize gappedBy gapped first = mid at two
  cases two with
  | comment comment none =>
    rw [none.code_nil]
    simp [Closing, comment, gappedBy]
  | plain plain none =>
    have final := List.getLast?_eq_some_getLast plain.filled
    rw [none.code_nil, List.append_nil, gappedBy_of_last final, Closing, and_iff_right plain.comment, final]
    simp

theorem plain_of_mem (parted : Parted gapped tokens code) (member : t ∈ tokens) (plain : t.isComment = false) :
    Plain t := by
  induction parted with
  | nil => exact absurd member List.not_mem_nil
  | comment comment _ ih =>
    rcases List.mem_cons.mp member with rfl | later
    · rw [plain] at comment
      contradiction
    · exact ih later
  | plain here _ ih =>
    rcases List.mem_cons.mp member with rfl | later
    · exact here
    · exact ih later

/-- Comments and gaps may be left out where a gap stands. -/
theorem dropWhile (parted : Parted true tokens code) (p : Token → Bool)
    (known : ∀ t, p t = true → t.isComment = true ∨ t.isSpace = true) :
    ∃ later, Parted true (tokens.dropWhile p) later ∧ squeezed true later = squeezed true code := by
  induction tokens generalizing code with
  | nil => exact ⟨code, parted, rfl⟩
  | cons t rest ih =>
    by_cases holds : p t = true
    · rw [List.dropWhile_cons_of_pos holds]
      cases parted with
      | comment _ parted => exact ih parted
      | plain plain parted =>
        have gap := plain.space ((known t holds).resolve_left (by simp [plain.comment]))
        rw [gappedBy_of_gap gap fun _ => rfl] at parted
        rw [squeezed_gap gap]
        exact ih parted
    · rw [List.dropWhile_cons_of_neg holds]
      exact ⟨code, parted, rfl⟩

theorem behind_joined {rest : List Token} {run : List Char} (parted : Parted true tokens code)
    (found : joinedRuns tokens = some (run, rest)) :
    ∃ later, Parted true rest later ∧ squeezed true later = squeezed true code := by
  have drop (p : Token → Bool) (known : ∀ t, p t = true → t.isComment = true ∨ t.isSpace = true) (left : List Token)
      (here : ∃ later, Parted true left later ∧ squeezed true later = squeezed true code) :
      ∃ later, Parted true (left.dropWhile p) later ∧ squeezed true later = squeezed true code := by
    obtain ⟨later, parted, same⟩ := here
    obtain ⟨further, parted, still⟩ := parted.dropWhile p known
    exact ⟨further, parted, still.trans same⟩
  exact of_joinedRuns (drop inRun comment_or_space) (drop Token.isSpace fun _ => .inr) found ⟨code, parted, rfl⟩

theorem squeezed_pieces (parted : Parted gapped tokens code) (before : Option (List Char)) :
    squeezed gapped (piecesFrom before tokens).flatten = squeezed gapped code := by
  fun_induction piecesFrom before tokens generalizing gapped code with
  | case1 before => rw [parted.code_nil, List.flatten_nil]
  | case2 before t rest comment run after joined drops ih =>
    cases parted with
    | comment _ parted =>
      obtain ⟨later, behind, same⟩ := (Parted.comment comment parted).behind_joined joined
      exact (ih behind).trans same
    | plain plain => simp [plain.comment] at comment
  | case3 before t rest comment run after joined drops ih =>
    cases parted with
    | comment _ parted =>
      obtain ⟨later, behind, same⟩ := (Parted.comment comment parted).behind_joined joined
      rw [List.flatten_cons, squeezed_gap (gap_remains run)]
      exact (ih behind).trans same
    | plain plain => simp [plain.comment] at comment
  | case4 before t rest comment joined drops ih =>
    cases parted with
    | comment _ parted => exact ih parted
    | plain plain => simp [plain.comment] at comment
  | case5 before t rest comment joined drops ih =>
    cases parted with
    | comment _ parted =>
      rw [List.flatten_cons, squeezed_gap (gap_remains t.text)]
      exact ih parted
    | plain plain => simp [plain.comment] at comment
  | case6 before t rest uncommented ih =>
    cases parted with
    | comment comment => exact absurd comment uncommented
    | plain plain parted =>
      rw [List.flatten_cons]
      exact squeezed_congr rfl (ih parted)

theorem squeezed_plain (parted : Parted gapped tokens code) (closing : ∀ t, tokens.getLast? = some t → Closing t) :
    squeezed gapped (Statement.plain tokens) = squeezed gapped code := by
  have same : squeezed gapped ([].reverse ++ uncomment tokens) = squeezed gapped code := parted.squeezed_pieces none
  refine (squeezed_linesFrom (inked_of_squeezed same parted.inked) fun c last => ?_).trans same
  cases final : tokens.getLast? with
  | none =>
    rw [List.getLast?_eq_none_iff.mp final, uncomment, piecesFrom] at last
    contradiction
  | some t =>
    rw [← gappedBy_of_last last]
    exact (gappedBy_congr same).trans ((parted.gappedBy_iff final).mpr (closing t final))

theorem squeezed_flatMap {pieces : List (List Token)} (parted : Parted gapped pieces.flatten code)
    (closing : ∀ piece ∈ pieces, ∀ t, piece.getLast? = some t → Closing t) :
    squeezed gapped (pieces.flatMap Statement.plain) = squeezed gapped code := by
  induction pieces generalizing gapped code with
  | nil => rw [List.flatten_nil] at parted; rw [parted.code_nil, List.flatMap_nil]
  | cons piece more ih =>
    obtain ⟨here, later⟩ := List.forall_mem_cons.mp closing
    rw [List.flatten_cons] at parted
    obtain ⟨first, second, one, two, rfl⟩ := parted.split
    rw [List.flatMap_cons]
    exact squeezed_congr (one.squeezed_plain here) (ih two later)

end Parted

theorem not_comment_of_ends {t : Token} (ending : ends t = true) : t.isComment = false := by
  obtain ⟨kind, text⟩ := t
  cases kind <;> first | rfl | contradiction

/-- Trimming and cutting leave a text alone that begins and ends with ink. -/
theorem trim_of_inked {d : Dialect} {text : List Char} (inked : ∀ c ∈ text, Inked c)
    (opened : text.head?.any isGap = false) (closed : gappedBy false text = false) :
    trim (if d = .mysql then cutHashes text else text) = text := by
  have free : '#' ∉ text := fun member => (inked '#' member).free (List.mem_cons_self ..)
  have uncut : (if d = .mysql then cutHashes text else text) = text := by
    rw [cutHashes_eq_self text (fun c member => (inked c member).unquoted) free, ite_self]
  have first (c : Char) (head : text.head? = some c) : isBlank c = false := by
    rw [head] at opened
    exact (inked c (List.mem_of_head? head)).blank.trans opened
  have last (c : Char) (final : text.getLast? = some c) : isBlank c = false := by
    rw [gappedBy_of_last final] at closed
    exact (inked c (List.mem_of_getLast? final)).blank.trans closed
  rw [uncut, trim, trimLeft_eq_self text first, trimRight_eq_self text last]

namespace Laid
variable {cs code : List Char}

theorem inked {gapped : Bool} (laid : Laid gapped cs code) : ∀ c ∈ code, Inked c := (laid.parted none).inked

theorem flatten_split (laid : Laid false cs code) (closed : gappedBy false code = false) :
    (split (scan cs)).flatten = scan cs := by
  have parted : Parted false (scan cs) code := laid.parted none
  refine Statement.flatten_split fun t last => ?_
  obtain ⟨comment, visible⟩ := (parted.gappedBy_iff last).mp closed
  have plain := parted.plain_of_mem (List.mem_of_getLast? last) comment
  by_contra white
  have gap := plain.space (by simpa using white)
  have final := List.getLast?_eq_some_getLast plain.filled
  have other := visible _ final
  rw [gap _ (List.mem_of_getLast? final)] at other
  contradiction

/-- No statement of the text loses a gap at its end. -/
theorem closing (laid : Laid false cs code) (closed : gappedBy false code = false) (brisk : Brisk (scan cs)) :
    ∀ piece ∈ split (scan cs), ∀ t, piece.getLast? = some t → Parted.Closing t := by
  have parted : Parted false (scan cs) code := laid.parted none
  intro piece member t last
  rcases getLast?_of_mem_split brisk member with same | ⟨u, final, ending⟩
  · exact (parted.gappedBy_iff (same.symm.trans last)).mp closed
  · rw [last, Option.some.injEq] at final
    subst final
    have inside : t ∈ scan cs := (infix_of_mem_split member).subset (List.mem_of_getLast? last)
    have comment := not_comment_of_ends ending
    exact ⟨comment, (parted.plain_of_mem inside comment).closing ending⟩

/-- What is left of a layout without its comments is its code, up to the length of gaps. -/
theorem strip (laid : Laid false cs code) (opened : code.head?.any isGap = false)
    (closed : gappedBy false code = false) (brisk : Brisk (scan cs)) (shallow : ¬ TooDeep cs) (d : Dialect) :
    ∃ plain, Statement.strip d cs = .ok plain ∧ squeezed false plain = squeezed false code := by
  have parted : Parted false (split (scan cs)).flatten code := by
    rw [laid.flatten_split closed]
    exact laid.parted none
  have same := parted.squeezed_flatMap (laid.closing closed brisk)
  have inked := inked_of_squeezed same laid.inked
  rw [tooDeep_iff, Bool.not_eq_true] at shallow
  refine ⟨_, ?_, same⟩
  rw [Statement.strip, plainText, shallow]
  exact congrArg Except.ok
    (trim_of_inked inked ((headGap_of_squeezed same).trans opened) ((gappedBy_congr same).trans closed))

end Laid
end SqlSchema.Statement
