import SqlSchema.Proofs.Token.Carrier
import SqlSchema.Proofs.Token.Scan

/-! Texts that make the same tokens. No rule takes a semicolon together with anything in front of it, and none tells letters
of either case apart. So a text is cut at the same places and into tokens of the same kinds when letters change their case,
and when semicolons are put behind it. Only the tags around a text between dollar signs are compared as they are, and only
comments up to the end of a line go on behind the text. -/
namespace SqlSchema.Token
open Text

/-! Rules in other words. -/

/-- What there is to do behind a point, or without one. -/
def atPoint {α : Type} (cs : List Char) (pointed : List Char → α) (other : α) : α :=
  match cs with
  | '.' :: rest => pointed rest
  | _ => other

theorem linkedName_eq (before : Option Char) (cs : List Char) :
    linkedName before cs =
      if cs.head?.any isNameStart then
        if atPoint (trimLeft (cs.tail.dropWhile isWord)) (fun next => !next.head?.any isDigit) false ||
            before == some '.' || (cs.tail.dropWhile isWord).head? == some '(' then
          some (.name, cs.tail.dropWhile isWord)
        else none
      else none := rfl

/-- The exponent that the number before it must have. -/
def exponent (cs : List Char) : Option (Kind × List Char) :=
  match cs with
  | e :: rest =>
    if isLetter 'E' e && startsWithDigit (dropHyphen rest) then
      some (.number, (dropHyphen rest).dropWhile isDigit)
    else none
  | [] => none

theorem exponentNumber_eq (cs : List Char) :
    exponentNumber cs =
      if startsWithDigit (dropHyphen cs) then
        exponent (atPoint ((dropHyphen cs).dropWhile isDigit)
          (fun rest => if startsWithDigit rest then rest.dropWhile isDigit else (dropHyphen cs).dropWhile isDigit)
          ((dropHyphen cs).dropWhile isDigit))
      else none := rfl

theorem plainNumber_eq (cs : List Char) :
    plainNumber cs =
      (atPoint (dropHyphen cs) (digitRun 1)
          (if startsWithDigit (dropHyphen cs) then atPoint ((dropHyphen cs).dropWhile isDigit) (digitRun 0) none
            else none) <|>
        digitRun 1 (dropHyphen cs)).map (.number, ·) := rfl

/-- The zone between quotes. -/
def zone (cs : List Char) : Option (List Char) :=
  match cs with
  | '\x27' :: zone =>
    match zone.takeWhile (· != '\x27'), zone.dropWhile (· != '\x27') with
    | _ :: _, _ :: rest => some rest
    | _, _ => none
  | _ => none

theorem timeZone_eq (cs : List Char) :
    timeZone cs =
      ((phrase ["AT", "TIME", "ZONE"] cs <|> phrase ["WITH'", "TIME", "ZONE"] cs).bind fun after =>
        (blanks after).bind zone) := rfl

theorem dollarString_of_free (before : Option Char) {cs : List Char} (free : '$' ∉ cs) :
    dollarString before cs = none := by
  unfold dollarString
  split
  · simp at free
  · rfl

theorem leading_semicolon (before : Option Char) (rest : List Char) :
    leading before (';' :: rest) = some (.punctuation, rest) := rfl

namespace Carrier

variable (k : Carrier)

/-! Rules. -/

/-- The rule finds the same. -/
def Carries (rule : List Char → Option (Kind × List Char)) : Prop :=
  ∀ cs, rule (k.carry cs) = (rule cs).map (Prod.map id k.carry)

theorem map_carry (kind : Kind) (after : Option (List Char)) :
    (after.map k.carry).map (kind, ·) = (after.map (kind, ·)).map (Prod.map id k.carry) := by
  cases after <;> rfl

variable {k} in
theorem Carries.orElse {first second : List Char → Option (Kind × List Char)} (one : k.Carries first)
    (two : k.Carries second) : k.Carries fun cs => first cs <|> second cs := by
  intro cs
  dsimp only
  rw [one cs, two cs]
  cases first cs <;> rfl

theorem afterBlock_carry (cs : List Char) : afterBlock (k.carry cs) = (afterBlock cs).map k.carry := by
  induction cs using afterBlock.induct with
  | case1 rest =>
    have front : k.carry ('*' :: '/' :: rest) = '*' :: '/' :: k.carry rest := k.carry_front ['*', '/'] (by decide) rest
    rw [front]
    rfl
  | case2 c rest other ih =>
    rw [carry_cons, afterBlock, afterBlock, ih]
    · exact other
    · exact k.not_pair_carry (by decide) (by decide) other
  | case3 =>
    have open_ (cs : List Char) (sealed : ∀ c ∈ cs, c = ';') : afterBlock cs = none := by
      induction cs with
      | nil => rfl
      | cons c cs ih =>
        obtain ⟨rfl, later⟩ := List.forall_mem_cons.mp sealed
        rw [afterBlock, ih later]
        exact fun _ star => absurd star (by decide)
    exact open_ k.tail k.sealed

theorem carries_block : k.Carries block := by
  intro cs
  have plus (cs : List Char) := k.head?_carry (show IsMark '+' by decide) cs
  unfold block
  split
  next rest found =>
    obtain ⟨more, rfl, rfl⟩ := k.eq_append_of_carry ['/', '*'] (by decide) found
    simp only [List.cons_append, List.nil_append, afterBlock_carry, plus]
    exact k.map_carry _ _
  next other =>
    split
    next rest => exact absurd (k.carry_front ['/', '*'] (by decide) rest) (other (k.carry rest))
    next => rfl

theorem afterLine_carry (last : k.tail = []) (cs : List Char) : afterLine (k.carry cs) = k.carry (afterLine cs) := by
  have feed (c : Char) : k.shift c = '\n' ↔ c = '\n' := k.shift_eq_iff (by decide)
  have back (c : Char) : k.shift c = '\r' ↔ c = '\r' := k.shift_eq_iff (by decide)
  induction cs using afterLine.induct with
  | case1 rest =>
    have front : k.carry ('\r' :: '\n' :: rest) = '\r' :: '\n' :: k.carry rest :=
      k.carry_front ['\r', '\n'] (by decide) rest
    rw [front]
    rfl
  | case2 rest other =>
    have small : ∀ more, k.carry rest ≠ '\n' :: more := fun more found =>
      let ⟨_, same, _⟩ := k.eq_append_of_carry ['\n'] (by decide) found
      other _ same
    rw [carry_cons, k.shift_eq_self (by decide), afterLine, afterLine]
    · exact other
    · exact small
  | case3 rest =>
    have front : k.carry ('\n' :: rest) = '\n' :: k.carry rest := k.carry_front ['\n'] (by decide) rest
    rw [front]
    rfl
  | case4 c rest _ alone other ih =>
    rw [carry_cons, afterLine, afterLine, ih]
    · exact fun more same _ => alone same
    · exact alone
    · exact other
    · exact fun more same _ => alone ((back c).mp same)
    · exact mt (back c).mp alone
    · exact mt (feed c).mp other
  | case5 =>
    rw [carry_nil, last]
    exact (k.carry_nil.trans last).symm

/-- A comment that goes on up to the end of its line takes the semicolons with it. -/
theorem line_carry (cs : List Char) (open_ : k.tail = [] ∨ line cs = none) :
    line (k.carry cs) = (line cs).map (Prod.map id k.carry) := by
  have plus (cs : List Char) := k.head?_carry (show IsMark '+' by decide) cs
  rw [line.eq_def (k.carry cs)]
  split
  next rest found =>
    obtain ⟨more, rfl, rfl⟩ := k.eq_append_of_carry ['-', '-'] (by decide) found
    rcases open_ with last | missed
    · simp only [List.cons_append, List.nil_append, line, k.afterLine_carry last, plus]
      rfl
    · cases missed
  next rest found =>
    obtain ⟨more, rfl, rfl⟩ := k.eq_append_of_carry ['#', ' '] (by decide) found
    rcases open_ with last | missed
    · simp only [List.cons_append, List.nil_append, line, k.afterLine_carry last, plus]
      rfl
    · cases missed
  next hyphens sharp =>
    unfold line
    split
    next rest => exact absurd (k.carry_front ['-', '-'] (by decide) rest) (hyphens (k.carry rest))
    next rest => exact absurd (k.carry_front ['#', ' '] (by decide) rest) (sharp (k.carry rest))
    next => rfl

theorem carries_space : k.Carries space := by
  intro cs
  cases cs with
  | nil =>
    rw [carry_nil]
    rcases k.tail_cases with last | ⟨more, split⟩
    · rw [last]
      rfl
    · rw [split]
      rfl
  | cons c rest =>
    by_cases pair : ∃ more, c = '\r' ∧ rest = '\n' :: more
    · obtain ⟨more, rfl, rfl⟩ := pair
      have front : k.carry ('\r' :: '\n' :: more) = '\r' :: '\n' :: k.carry more :=
        k.carry_front ['\r', '\n'] (by decide) more
      rw [front]
      rfl
    · have other (more : List Char) (first : c = '\r') (second : rest = '\n' :: more) : False :=
        pair ⟨more, first, second⟩
      rw [carry_cons, space, space, k.caseless_shift caseless_isLineEnd, k.caseless_shift caseless_isBlank]
      · split
        · rfl
        · split <;> rfl
      · exact other
      · exact k.not_pair_carry (by decide) (by decide) other

theorem carries_earlyMark : k.Carries earlyMark := by
  intro cs
  rw [earlyMark.eq_def (k.carry cs)]
  split
  next rest found =>
    obtain ⟨more, rfl, rfl⟩ := k.eq_append_of_carry [':', '='] (by decide) found
    rfl
  next rest found =>
    obtain ⟨more, rfl, rfl⟩ := k.eq_append_of_carry [':', ':'] (by decide) found
    rfl
  next rest found =>
    obtain ⟨more, rfl, rfl⟩ := k.eq_append_of_carry ['*'] (by decide) found
    rfl
  next equals colons star =>
    unfold earlyMark
    split
    next rest => exact absurd (k.carry_front [':', '='] (by decide) rest) (equals (k.carry rest))
    next rest => exact absurd (k.carry_front [':', ':'] (by decide) rest) (colons (k.carry rest))
    next rest => exact absurd (k.carry_front ['*'] (by decide) rest) (star (k.carry rest))
    next => rfl

theorem carries_quoted (kind : Kind) {q : Quoting} (own : IsMark q.mark) : k.Carries (quoted kind q) := by
  intro cs
  cases cs with
  | nil =>
    rw [carry_nil]
    rcases k.tail_cases with last | ⟨more, split⟩
    · rw [last]
      rfl
    · rw [split, quoted, if_neg (Ne.symm own.2)]
      rfl
  | cons c rest =>
    have mark : k.shift c = q.mark ↔ c = q.mark := k.shift_eq_iff own.1
    rw [carry_cons, quoted, quoted, k.close_carry q own]
    simp only [mark]
    split
    · cases q.close rest <;> rfl
    · rfl

theorem word?_carry (cs : List Char) : word? (k.carry cs) = (word? cs).map k.carry := by
  rw [word?, word?, k.any_head?_carry blind_isWord, k.dropWhile_carry blind_isWord]
  split <;> rfl

theorem carries_percentPlaceholder : k.Carries percentPlaceholder := by
  have letter : Blind (isLetter 'S') := blind_isLetter (by decide)
  intro cs
  by_cases percent : ∃ s rest, cs = '%' :: s :: rest
  · obtain ⟨s, rest, rfl⟩ := percent
    by_cases opens : s = '('
    · subst opens
      rw [carry_cons, carry_cons, k.shift_eq_self (by decide), k.shift_eq_self (by decide), percentPlaceholder,
        percentPlaceholder, word?_carry]
      cases word? rest with
      | none => rfl
      | some after =>
        rw [Option.map_some]
        split
        next s behind same =>
          obtain ⟨tail, rfl, later⟩ := k.eq_append_of_carry [')'] (by decide) (Option.some.inj same)
          rcases k.eq_cons_of_carry later with ⟨t, tail, rfl, rfl, rfl⟩ | ⟨rfl, rfl⟩
          · simp only [List.cons_append, List.nil_append, k.caseless_shift letter.caseless]
            split <;> rfl
          · rw [letter.unsealed]
            rfl
        next other =>
          split
          next s behind same =>
            cases same
            exact absurd (congrArg some (k.carry_front [')'] (by decide) (s :: behind))) (other (k.shift s) (k.carry behind))
          next => rfl
    · rw [carry_cons, carry_cons, k.shift_eq_self (by decide), percentPlaceholder, percentPlaceholder,
        k.caseless_shift letter.caseless]
      · split <;> rfl
      · exact opens
      · exact mt (k.shift_eq_iff (by decide)).mp opens
  · have missed : percentPlaceholder cs = none := by
      unfold percentPlaceholder
      split
      next rest => exact absurd ⟨_, _, rfl⟩ percent
      next s rest _ => exact absurd ⟨_, _, rfl⟩ percent
      next => rfl
    rw [missed]
    unfold percentPlaceholder
    split
    next rest found =>
      obtain ⟨more, rfl, _⟩ := k.eq_append_of_carry ['%', '('] (by decide) found
      exact absurd ⟨_, _, rfl⟩ percent
    next s rest _ found =>
      obtain ⟨more, rfl, later⟩ := k.eq_append_of_carry ['%'] (by decide) found
      rcases k.eq_cons_of_carry later with ⟨t, more, rfl, _⟩ | ⟨_, rfl⟩
      · exact absurd ⟨_, _, rfl⟩ percent
      · rw [letter.unsealed]
        rfl
    next => rfl

theorem carries_placeholder (before : Option Char) :
    ∀ cs, placeholder (before.map k.shift) (k.carry cs) = (placeholder before cs).map (Prod.map id k.carry) := by
  intro cs
  rw [placeholder.eq_def _ (k.carry cs)]
  split
  next rest found =>
    obtain ⟨more, rfl, rfl⟩ := k.eq_append_of_carry ['?'] (by decide) found
    rfl
  next rest found =>
    obtain ⟨more, rfl, rfl⟩ := k.eq_append_of_carry ['$'] (by decide) found
    simp only [List.cons_append, List.nil_append, placeholder, k.shift_any caseless_isWord, word?_carry]
    split
    · rfl
    · exact k.map_carry _ _
  next rest found =>
    obtain ⟨more, rfl, rfl⟩ := k.eq_append_of_carry [':'] (by decide) found
    simp only [List.cons_append, List.nil_append, placeholder, k.shift_any caseless_isWord, word?_carry]
    split
    · rfl
    · exact k.map_carry _ _
  next question dollar colon =>
    unfold placeholder
    split
    next rest => exact absurd (k.carry_front ['?'] (by decide) rest) (question (k.carry rest))
    next rest => exact absurd (k.carry_front ['$'] (by decide) rest) (dollar (k.carry rest))
    next rest => exact absurd (k.carry_front [':'] (by decide) rest) (colon (k.carry rest))
    next => exact k.carries_percentPlaceholder cs

theorem carries_command : k.Carries command := by
  intro cs
  rw [command.eq_def (k.carry cs)]
  split
  next rest found =>
    obtain ⟨more, rfl, rfl⟩ := k.eq_append_of_carry ['\\'] (by decide) found
    simp only [List.cons_append, List.nil_append, command, word?_carry]
    exact k.map_carry _ _
  next other =>
    unfold command
    split
    next rest => exact absurd (k.carry_front ['\\'] (by decide) rest) (other (k.carry rest))
    next => rfl

theorem carries_earlyWord : k.Carries earlyWord := by
  intro cs
  rw [earlyWord, earlyWord, k.firstPhrase_carry (by decide)]
  exact k.map_carry _ _

theorem carries_markedName : k.Carries markedName := by
  have found (c : Char) (rest : List Char) :
      (if isNameStart (k.shift c) = true then (word? (k.carry rest)).map (Kind.name, ·) else none) =
        (if isNameStart c = true then (word? rest).map (Kind.name, ·) else none).map (Prod.map id k.carry) := by
    rw [k.caseless_shift blind_isNameStart.caseless, word?_carry]
    split
    · exact k.map_carry _ _
    · rfl
  have none (rest : List Char) :
      (if isNameStart ';' = true then (word? rest).map (Kind.name, ·) else none) = none := by
    rw [blind_isNameStart.unsealed, if_neg Bool.false_ne_true]
  intro cs
  rw [markedName.eq_def (k.carry cs)]
  split
  next c rest same =>
    obtain ⟨more, rfl, later⟩ := k.eq_append_of_carry ['#', '#'] (by decide) same
    rcases k.eq_cons_of_carry later with ⟨d, more, rfl, rfl, rfl⟩ | ⟨rfl, rfl⟩
    · exact found d more
    · exact none rest
  next c rest same =>
    obtain ⟨more, rfl, later⟩ := k.eq_append_of_carry ['@'] (by decide) same
    rcases k.eq_cons_of_carry later with ⟨d, more, rfl, rfl, rfl⟩ | ⟨rfl, rfl⟩
    · exact found d more
    · exact none rest
  next c rest double same =>
    obtain ⟨more, rfl, later⟩ := k.eq_append_of_carry ['#'] (by decide) same
    rcases k.eq_cons_of_carry later with ⟨d, more, rfl, rfl, rfl⟩ | ⟨rfl, rfl⟩
    · rw [List.singleton_append, markedName]
      · exact found d more
      · rintro e tail rfl rfl
        exact double (k.shift e) (k.carry tail) (k.shift_eq_self (by decide)) rfl
    · exact none rest
  next double behind single =>
    unfold markedName
    split
    next c rest =>
      exact absurd (k.carry_front ['#', '#'] (by decide) (c :: rest)) (double (k.shift c) (k.carry rest))
    next c rest => exact absurd (k.carry_front ['@'] (by decide) (c :: rest)) (behind (k.shift c) (k.carry rest))
    next c rest _ => exact absurd (k.carry_front ['#'] (by decide) (c :: rest)) (single (k.shift c) (k.carry rest))
    next => rfl

theorem atPoint_carry {α β : Type} {f : α → β} {pointed : List Char → α} {pointed' : List Char → β} {other : α}
    {other' : β} (behind : ∀ rest, pointed' (k.carry rest) = f (pointed rest)) (without : other' = f other)
    (cs : List Char) : atPoint (k.carry cs) pointed' other' = f (atPoint cs pointed other) := by
  rw [atPoint.eq_def (k.carry cs)]
  split
  next rest same =>
    obtain ⟨more, rfl, rfl⟩ := k.eq_append_of_carry ['.'] (by decide) same
    exact behind more
  next unpointed =>
    unfold atPoint
    split
    next rest => exact absurd (k.carry_front ['.'] (by decide) rest) (unpointed (k.carry rest))
    next => exact without

theorem carries_linkedName (before : Option Char) :
    ∀ cs, linkedName (before.map k.shift) (k.carry cs) = (linkedName before cs).map (Prod.map id k.carry) := by
  intro cs
  have point : (before.map k.shift == some '.') = (before == some '.') := by
    cases before with
    | none => rfl
    | some c => exact k.caseless_shift (caseless_beq (by decide)) c
  have opens (cs : List Char) : ((k.carry cs).head? == some '(') = (cs.head? == some '(') := by
    rw [Bool.eq_iff_iff, beq_iff_eq, beq_iff_eq, k.head?_carry (by decide)]
  have pointed (cs : List Char) : atPoint (k.carry cs) (fun next => !next.head?.any isDigit) false =
      id (atPoint cs (fun next => !next.head?.any isDigit) false) :=
    k.atPoint_carry (f := id) (fun rest => congrArg (!·) (k.any_head?_carry blind_isDigit rest)) rfl cs
  rw [linkedName_eq, linkedName_eq, k.any_head?_carry blind_isNameStart]
  cases cs with
  | nil => rfl
  | cons c cs =>
    rw [carry_cons, List.tail_cons, List.tail_cons, k.dropWhile_carry blind_isWord, trimLeft_carry, pointed, opens,
      point, id]
    split
    · split <;> rfl
    · rfl

theorem dropHyphen_carry (cs : List Char) : dropHyphen (k.carry cs) = k.carry (dropHyphen cs) := by
  rw [dropHyphen.eq_def (k.carry cs)]
  split
  next rest same =>
    obtain ⟨more, rfl, rfl⟩ := k.eq_append_of_carry ['-'] (by decide) same
    rfl
  next other =>
    unfold dropHyphen
    split
    next rest => exact absurd (k.carry_front ['-'] (by decide) rest) (other (k.carry rest))
    next => rfl

theorem carries_hexNumber : k.Carries hexNumber := by
  have letter : Blind (isLetter 'X') := blind_isLetter (by decide)
  intro cs
  unfold hexNumber
  rw [dropHyphen_carry]
  split
  next x c rest same =>
    obtain ⟨more, front, later⟩ := k.eq_append_of_carry ['0'] (by decide) same
    rw [front]
    rcases k.eq_cons_of_carry later with ⟨y, more, rfl, rfl, last⟩ | ⟨rfl, rfl⟩
    · rcases k.eq_cons_of_carry last with ⟨d, more, rfl, rfl, rfl⟩ | ⟨rfl, rfl⟩
      · simp only [List.cons_append, List.nil_append, k.caseless_shift letter.caseless,
          k.caseless_shift blind_isHexDigit.caseless]
        split
        · exact congrArg (fun after => some (Kind.number, after)) (k.dropWhile_carry blind_isHexDigit more)
        · rfl
      · rw [blind_isHexDigit.unsealed, Bool.and_false]
        rfl
    · rw [letter.unsealed, Bool.false_and]
      rfl
  next other =>
    split
    next x c rest same =>
      exact absurd ((congrArg k.carry same).trans (k.carry_front ['0'] (by decide) (x :: c :: rest)))
        (other (k.shift x) (k.shift c) (k.carry rest))
    next => rfl

theorem digitRun_carry (least : Nat) (cs : List Char) :
    digitRun least (k.carry cs) = (digitRun least cs).map k.carry := by
  have last : (k.carry cs).drop ((cs.takeWhile isDigit).length - 1) =
      k.carry (cs.drop ((cs.takeWhile isDigit).length - 1)) := by
    have inside := (List.takeWhile_prefix (l := cs) isDigit).length_le
    rw [carry, carry, List.drop_append_of_le_length (by rw [List.length_map]; omega), List.map_drop]
  unfold digitRun
  rw [k.takeWhile_carry blind_isDigit, k.dropWhile_carry blind_isDigit]
  simp only [List.length_map, k.any_head?_carry blind_isNameStartOrUnderscore, last]
  split
  · rfl
  · split
    · rfl
    · split <;> rfl

theorem startsWithDigit_carry (cs : List Char) : startsWithDigit (k.carry cs) = startsWithDigit cs :=
  k.any_head?_carry blind_isDigit cs

theorem carries_exponent : k.Carries exponent := by
  have letter : Blind (isLetter 'E') := blind_isLetter (by decide)
  intro cs
  cases cs with
  | nil =>
    rw [carry_nil]
    rcases k.tail_cases with last | ⟨more, split⟩
    · rw [last]
      rfl
    · rw [split, exponent, letter.unsealed]
      rfl
  | cons e rest =>
    rw [carry_cons, exponent, exponent, k.caseless_shift letter.caseless, dropHyphen_carry, startsWithDigit_carry,
      k.dropWhile_carry blind_isDigit]
    split <;> rfl

theorem carries_exponentNumber : k.Carries exponentNumber := by
  intro cs
  rw [exponentNumber_eq, exponentNumber_eq, dropHyphen_carry, startsWithDigit_carry, k.dropWhile_carry blind_isDigit]
  split
  · rw [k.atPoint_carry (f := k.carry) ?_ rfl, carries_exponent]
    intro rest
    rw [startsWithDigit_carry, k.dropWhile_carry blind_isDigit]
    split <;> rfl
  · rfl

theorem carries_plainNumber : k.Carries plainNumber := by
  intro cs
  rw [plainNumber_eq, plainNumber_eq, dropHyphen_carry, startsWithDigit_carry, k.dropWhile_carry blind_isDigit,
    digitRun_carry, k.atPoint_carry (f := Option.map k.carry) (k.digitRun_carry 1) ?_, ← map_carry]
  · generalize atPoint (dropHyphen cs) _ _ = pointed
    cases pointed <;> rfl
  · split
    · have none : Option.map k.carry none = none := rfl
      exact k.atPoint_carry (f := Option.map k.carry) (k.digitRun_carry 0) none.symm _
    · rfl

theorem carries_bracketName (before : Option Char) :
    ∀ cs, bracketName (before.map k.shift) (k.carry cs) = (bracketName before cs).map (Prod.map id k.carry) := by
  have indexed : Caseless fun c => isWord c || c == ']' || c == ')' := caseless_of_ascii (by decide)
  have free : Caseless fun c => c != '[' && c != ']' := caseless_of_ascii (by decide)
  intro cs
  rw [bracketName.eq_def _ (k.carry cs)]
  split
  next rest same =>
    obtain ⟨more, rfl, rfl⟩ := k.eq_append_of_carry ['['] (by decide) same
    rw [List.singleton_append, bracketName, k.shift_any indexed]
    split
    · rfl
    · cases found : more.dropWhile fun c => c != '[' && c != ']' with
      | nil =>
        simp only [k.dropWhile_carry_nil free (by decide) found, found]
        split
        · contradiction
        · split
          · contradiction
          · rfl
      | cons b after =>
        obtain ⟨taken, dropped⟩ := k.break_carry free found
        simp only [taken, dropped, found]
        cases more.takeWhile (fun c => c != '[' && c != ']') with
        | nil => rfl
        | cons c name =>
          rw [List.map_cons, carry_cons]
          split
          next closed =>
            cases (k.shift_eq_iff (by decide)).mp (List.cons.inj closed).1
            cases (List.cons.inj closed).2
            rfl
          next other =>
            split
            next closed =>
              cases closed
              exact (other _ _ _ rfl (k.carry_front [']'] (by decide) after)).elim
            next => rfl
  next other =>
    unfold bracketName
    split
    next rest => exact absurd (k.carry_front ['['] (by decide) rest) (other (k.carry rest))
    next => rfl

theorem carries_plainWord : k.Carries plainWord := by
  intro cs
  rw [plainWord, plainWord, k.any_head?_carry blind_isWord, k.takeWhile_carry blind_isWordPart,
    k.dropWhile_carry blind_isWordPart]
  dsimp only
  rw [upper_shift]
  split <;> rfl

theorem goCount_carry (cs : List Char) : goCount (k.carry cs) = (goCount cs).map k.carry := by
  unfold goCount
  rw [k.spelled_carry (by decide)]
  match spelled ['G', 'O'] cs with
  | none => rfl
  | some [] =>
    rw [Option.map_some, carry_nil]
    rcases k.tail_cases with last | ⟨more, split⟩
    · rw [last]
      rfl
    · rw [split]
      cases more <;> rfl
  | some [c] =>
    rw [Option.map_some, carry_cons, carry_nil]
    rcases k.tail_cases with last | ⟨more, split⟩
    · rw [last]
      rfl
    · simp [split, blind_isDigit.unsealed]
  | some (c :: d :: rest) =>
    simp only [Option.map_some, carry_cons, k.caseless_shift caseless_isBlank, k.caseless_shift caseless_isDigit,
      k.dropWhile_carry blind_isDigit]
    split
    · exact k.endingWord_carry (some (rest.dropWhile isDigit))
    · rfl

theorem zone_carry (cs : List Char) : zone (k.carry cs) = (zone cs).map k.carry := by
  have open_ : Caseless (· != '\x27') := caseless_of_ascii (by decide)
  rw [zone.eq_def (k.carry cs)]
  split
  next rest same =>
    obtain ⟨more, rfl, rfl⟩ := k.eq_append_of_carry ['\x27'] (by decide) same
    rw [List.singleton_append, zone]
    cases found : more.dropWhile (· != '\x27') with
    | nil =>
      simp only [k.dropWhile_carry_nil open_ (by decide) found]
      split
      · contradiction
      · split
        · contradiction
        · rfl
    | cons b after =>
      obtain ⟨taken, dropped⟩ := k.break_carry open_ found
      simp only [taken, dropped]
      cases more.takeWhile (· != '\x27') <;> rfl
  next other =>
    unfold zone
    split
    next rest => exact absurd (k.carry_front ['\x27'] (by decide) rest) (other (k.carry rest))
    next => rfl

theorem timeZone_carry (cs : List Char) : timeZone (k.carry cs) = (timeZone cs).map k.carry := by
  have quoted (after : List Char) : (blanks (k.carry after)).bind zone = ((blanks after).bind zone).map k.carry := by
    rw [blanks_carry]
    cases blanks after with
    | none => rfl
    | some next => exact k.zone_carry next
  rw [timeZone_eq, timeZone_eq, k.phrase_carry (by decide), k.phrase_carry (by decide)]
  cases phrase ["AT", "TIME", "ZONE"] cs with
  | some after => exact quoted after
  | none =>
    cases phrase ["WITH'", "TIME", "ZONE"] cs with
    | some after => exact quoted after
    | none => rfl

variable {k} in
theorem Carries.found {rule : List Char → Option (List Char)} (same : ∀ cs, rule (k.carry cs) = (rule cs).map k.carry)
    (kind : Kind) : k.Carries fun cs => (rule cs).map (kind, ·) := by
  intro cs
  dsimp only
  rw [same]
  exact k.map_carry kind (rule cs)

theorem carries_phrases (ways : List (Kind × List (List String)))
    (unsealed : ∀ entry ∈ ways, ∀ words ∈ entry.2, Unsealed words) :
    k.Carries fun cs => ways.findSome? fun (kind, ways) => (firstPhrase ways cs).map (kind, ·) := by
  intro cs
  induction ways with
  | nil => rfl
  | cons entry more ih =>
    obtain ⟨here, later⟩ := List.forall_mem_cons.mp unsealed
    have behind := ih later
    dsimp only at behind ⊢
    rw [List.findSome?_cons, List.findSome?_cons, k.firstPhrase_carry here, behind]
    cases firstPhrase entry.2 cs <;> rfl

theorem carries_leadingPhrase : k.Carries leadingPhrase :=
  (k.carries_phrases phrases (by decide)).orElse <| (Carries.found k.goCount_carry _).orElse <|
    (Carries.found (k.firstPhrase_carry (by decide)) _).orElse <| (Carries.found k.timeZone_carry _).orElse <|
      (Carries.found (k.firstPhrase_carry (by decide)) _).orElse (.found (k.firstPhrase_carry (by decide)) _)

theorem sign_carry (c : Char) (rest : List Char) :
    sign (k.carry (c :: rest)) = (sign (c :: rest)).map (Prod.map id k.carry) := by
  generalize split : c :: rest = cs
  rw [sign.eq_def (k.carry cs)]
  split
  next rest same =>
    obtain ⟨more, rfl, rfl⟩ := k.eq_append_of_carry ['-', '>', '>'] (by decide) same
    rfl
  next rest longer same =>
    obtain ⟨more, rfl, rfl⟩ := k.eq_append_of_carry ['-', '>'] (by decide) same
    rw [List.cons_append, List.singleton_append, sign]
    · rfl
    · rintro tail rfl
      exact longer _ (k.carry_front ['>'] (by decide) tail)
  next rest same =>
    obtain ⟨more, rfl, rfl⟩ := k.eq_append_of_carry ['#', '>', '>'] (by decide) same
    rfl
  next rest longer same =>
    obtain ⟨more, rfl, rfl⟩ := k.eq_append_of_carry ['#', '>'] (by decide) same
    rw [List.cons_append, List.singleton_append, sign]
    · rfl
    · rintro tail rfl
      exact longer _ (k.carry_front ['>'] (by decide) tail)
  next rest same =>
    obtain ⟨more, rfl, rfl⟩ := k.eq_append_of_carry ['@', '>'] (by decide) same
    rfl
  next rest same =>
    obtain ⟨more, rfl, rfl⟩ := k.eq_append_of_carry ['<', '@'] (by decide) same
    rfl
  next rest longer long same =>
    obtain ⟨more, rfl, rfl⟩ := k.eq_append_of_carry ['-'] (by decide) same
    rw [List.singleton_append, sign]
    · rfl
    · rintro tail rfl
      exact longer _ (k.carry_front ['>', '>'] (by decide) tail)
    · rintro tail rfl
      exact long _ (k.carry_front ['>'] (by decide) tail)
  next rest same =>
    obtain ⟨more, rfl, rfl⟩ := k.eq_append_of_carry ['#', '-'] (by decide) same
    rfl
  next d after arrows arrow paths path right left minus inner same =>
    subst split
    rw [carry_cons] at same
    obtain ⟨rfl, rfl⟩ := List.cons.inj same
    have own {mark : Char} (sign : mark.isAlpha = false) (found : c = mark) : k.shift c = mark :=
      (k.shift_eq_iff sign).mpr found
    rw [sign, k.caseless_shift caseless_isPunctuation, k.caseless_shift blind_isComparisonSign.caseless,
      k.caseless_shift blind_isOperatorSign.caseless, k.dropWhile_carry blind_isComparisonSign,
      k.dropWhile_carry blind_isOperatorSign]
    · split
      · rfl
      · split
        · rfl
        · split <;> rfl
    · rintro tail first rfl
      exact arrows _ (own (by decide) first) (k.carry_front ['>', '>'] (by decide) tail)
    · rintro tail first rfl
      exact arrow _ (own (by decide) first) (k.carry_front ['>'] (by decide) tail)
    · rintro tail first rfl
      exact paths _ (own (by decide) first) (k.carry_front ['>', '>'] (by decide) tail)
    · rintro tail first rfl
      exact path _ (own (by decide) first) (k.carry_front ['>'] (by decide) tail)
    · rintro tail first rfl
      exact right _ (own (by decide) first) (k.carry_front ['>'] (by decide) tail)
    · rintro tail first rfl
      exact left _ (own (by decide) first) (k.carry_front ['@'] (by decide) tail)
    · exact fun first => minus (own (by decide) first)
    · rintro tail first rfl
      exact inner _ (own (by decide) first) (k.carry_front ['-'] (by decide) tail)
  next same =>
    subst split
    contradiction

/-! Tokens. -/

theorem leading_carry (before : Option Char) {c : Char} {rest : List Char} (undollared : '$' ∉ c :: rest)
    (open_ : k.tail = [] ∨ line (c :: rest) = none) :
    leading (before.map k.shift) (k.carry (c :: rest)) = (leading before (c :: rest)).map (Prod.map id k.carry) := by
  have join {a b a' b' : Option (Kind × List Char)} (first : a' = a.map (Prod.map id k.carry))
      (second : b' = b.map (Prod.map id k.carry)) : (a' <|> b') = (a <|> b).map (Prod.map id k.carry) := by
    rw [first, second]
    cases a <;> rfl
  have free : '$' ∉ k.carry (c :: rest) := by
    intro member
    rcases List.mem_append.mp member with inside | behind
    · obtain ⟨d, among, same⟩ := List.mem_map.mp inside
      rw [k.shift_eq_iff (by decide)] at same
      exact undollared (same ▸ among)
    · exact k.mark_not_mem_tail (by decide) behind
  have untagged : dollarString (before.map k.shift) (k.carry (c :: rest)) =
      (dollarString before (c :: rest)).map (Prod.map id k.carry) := by
    rw [dollarString_of_free _ undollared, dollarString_of_free _ free]
    rfl
  exact join (k.carries_block _) <| join untagged <| join (k.line_carry _ open_) <| join (k.carries_space _) <|
    join (k.carries_earlyMark _) <| join (k.carries_quoted _ (by decide) _) <|
    join (k.carries_quoted _ (by decide) _) <| join (k.carries_placeholder before _) <| join (k.carries_command _) <|
    join (k.carries_earlyWord _) <| join (k.carries_markedName _) <| join (k.carries_linkedName before _) <|
    join (k.carries_hexNumber _) <| join (k.carries_exponentNumber _) <| join (k.carries_plainNumber _) <|
    join (k.carries_quoted _ (by decide) _) <| join (k.carries_quoted _ (by decide) _) <|
    join (k.carries_bracketName before _) <| join (k.carries_leadingPhrase _) <|
    join (k.carries_plainWord _) (k.sign_carry c rest)

/-- The token with its letters changed. -/
def carried (t : Token) : Token := { t with text := t.text.map k.shift }

/-- The tokens that the semicolons make. -/
def tailTokens : List Token := k.tail.map fun c => ⟨.punctuation, [c]⟩

theorem scanFrom_tail (before : Option Char) : scanFrom before k.tail = k.tailTokens := by
  have all (cs : List Char) (sealed : ∀ c ∈ cs, c = ';') :
      ∀ before, scanFrom before cs = cs.map fun c => ⟨.punctuation, [c]⟩ := by
    induction cs with
    | nil => exact fun before => by rw [scanFrom, List.map_nil]
    | cons c cs ih =>
      obtain ⟨rfl, later⟩ := List.forall_mem_cons.mp sealed
      intro before
      rw [scanFrom, leading_semicolon]
      simp [ih later]
  exact all k.tail k.sealed before

/-- Where a comment up to the end of a line opens, it takes the semicolons behind the text with it. -/
theorem scanFrom_carry (before : Option Char) (cs : List Char) (undollared : '$' ∉ cs)
    (open_ : k.tail = [] ∨ ∀ rest, rest <:+ cs → line rest = none) :
    scanFrom (before.map k.shift) (k.carry cs) = (scanFrom before cs).map k.carried ++ k.tailTokens := by
  fun_induction scanFrom before cs with
  | case1 => rw [carry_nil, scanFrom_tail, List.map_nil, List.nil_append]
  | case2 before c rest kind after found size text ih =>
    have here : (leading (before.map k.shift) (k.carry (c :: rest))).getD (.stray, k.carry rest) =
        (kind, k.carry after) := by
      refine Eq.trans ?_ (congrArg (Prod.map id k.carry) found)
      rw [k.leading_carry before undollared (open_.imp_right fun free => free _ List.suffix_rfl)]
      cases leading before (c :: rest) <;> rfl
    have behind : rest.drop size <:+ c :: rest := (List.drop_suffix ..).trans (List.suffix_cons ..)
    have size_eq : (k.carry rest).length - (k.carry after).length = size := by
      simp [carry, size]
      omega
    have short : size ≤ rest.length := Nat.sub_le ..
    have taken : k.shift c :: (k.carry rest).take size = text.map k.shift := by
      rw [carry, List.take_append_of_le_length (by rwa [List.length_map]), ← List.map_take]
      rfl
    have left : (k.carry rest).drop size = k.carry (rest.drop size) := by
      rw [carry, List.drop_append_of_le_length (by rwa [List.length_map]), ← List.map_drop]
      rfl
    rw [carry_cons] at here ⊢
    rw [scanFrom, here]
    dsimp only
    rw [size_eq, taken, left, List.getLast?_map, ih (fun member => undollared (behind.subset member))
      (open_.imp_right fun free rest suffix => free rest (suffix.trans behind))]
    rfl

end Carrier
end SqlSchema.Token
