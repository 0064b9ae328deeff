import SqlSchema.Proofs.Token.Phrase
import SqlSchema.Statement.Strip

/-! What tokens look like. Outside quotes and comments a token is white space, or it has none, or it is a phrase: words
with white space between them. No token takes both white space and what may open a comment behind it, and none takes a
quote. -/
namespace SqlSchema.Token
open Text Statement

/-- Neither white space nor a quote. -/
def isSolid (c : Char) : Bool := !isBlank c && !isHashQuote c

theorem isSolid_iff (c : Char) : isSolid c = true ↔ isBlank c = false ∧ isHashQuote c = false := by
  rw [isSolid, Bool.and_eq_true, Bool.not_eq_true', Bool.not_eq_true']

/-- All quotes are ASCII characters. -/
theorem isSolid_of_foreign {c : Char} (foreign : ¬ c.toNat < 128) (visible : isBlank c = false) : isSolid c = true := by
  refine (isSolid_iff c).mpr ⟨visible, ?_⟩
  by_contra quote
  simp only [Bool.not_eq_false, isHashQuote, Bool.or_eq_true, beq_iff_eq, or_assoc] at quote
  rcases quote with rfl | rfl | rfl <;> exact foreign (by decide)

theorem isSolid_of_apart (c : Char) (range : Nat × Nat) (low : range.1 ≤ c.toNat) (high : c.toNat ≤ range.2)
    (apart : ∀ a ∈ blankRanges, a.2 < range.1 ∨ range.2 < a.1) (foreign : ¬ c.toNat < 128) : isSolid c = true := by
  refine isSolid_of_foreign foreign ?_
  by_contra blank
  obtain ⟨a, among, first, last⟩ := (inRanges_iff ..).mp (Bool.not_eq_false _ ▸ blank)
  have := apart a among
  omega

theorem isSolid_of_isWord (c : Char) (word : isWord c = true) : isSolid c = true := by
  by_cases ascii : c.toNat < 128
  · exact forall_ascii (P := fun c => isWord c = true → isSolid c = true) (by decide) c ascii word
  · have apart : ∀ a ∈ blankRanges, ∀ b ∈ wordRanges, a.2 < b.1 ∨ b.2 < a.1 := by decide +kernel
    rw [isWord, if_neg ascii] at word
    obtain ⟨b, inside, low, high⟩ := (inRanges_iff ..).mp word
    exact isSolid_of_apart c b low high (fun a among => apart a among b inside) ascii

theorem isBlank_of_isWord (c : Char) (word : isWord c = true) : isBlank c = false :=
  ((isSolid_iff c).mp (isSolid_of_isWord c word)).1

theorem isSolid_of_isNameStart (c : Char) (start : isNameStart c = true) : isSolid c = true := by
  by_cases ascii : c.toNat < 128
  · exact forall_ascii (P := fun c => isNameStart c = true → isSolid c = true) (by decide) c ascii start
  · rw [isNameStart, Bool.or_eq_true] at start
    rcases start with letter | foreign
    · exact absurd (ascii_of_isAlpha c letter) ascii
    · obtain ⟨b, inside, low, high⟩ := (inRanges_iff ..).mp foreign
      have apart : ∀ a ∈ blankRanges, ∀ b ∈ [(0xc0, 0xdc), (0xe0, 0xf6), (0xf8, 0xfc), (0x130, 0x131), (0x17f, 0x17f),
          (0x212a, 0x212b)], a.2 < b.1 ∨ b.2 < a.1 := by decide
      exact isSolid_of_apart c b low high (fun a among => apart a among b inside) ascii

/-- No white space and no quotes. -/
def Dense (cs : List Char) : Prop := ∀ c ∈ cs, isSolid c = true

instance (cs : List Char) : Decidable (Dense cs) := inferInstanceAs (Decidable (∀ _ ∈ _, _))

def Solid (cs : List Char) : Prop := Dense cs ∧ cs ≠ []

instance (cs : List Char) : Decidable (Solid cs) := inferInstanceAs (Decidable (_ ∧ _))

theorem Dense.append {front more : List Char} (first : Dense front) (second : Dense more) : Dense (front ++ more) := by
  intro c member
  rcases List.mem_append.mp member with here | there
  · exact first c here
  · exact second c there

theorem Solid.append {front more : List Char} (first : Solid front) (second : Dense more) : Solid (front ++ more) :=
  ⟨first.1.append second, by simp [first.2]⟩

theorem Dense.append_solid {front more : List Char} (first : Dense front) (second : Solid more) :
    Solid (front ++ more) :=
  ⟨first.append second.1, by simp [second.2]⟩

theorem dense_run (p : Char → Bool) (solid : ∀ c, p c = true → isSolid c = true) (cs : List Char) :
    Cut Dense cs (cs.dropWhile p) :=
  (cut_dropWhile p cs).mono fun _ all c member => solid c (all c member)

theorem solid_front (front rest : List Char) (solid : Solid front) :
    Cut Solid (front ++ rest) rest := ⟨front, rfl, solid⟩

theorem solid_char {c : Char} (solid : isSolid c = true) (rest : List Char) : Cut Solid (c :: rest) rest :=
  ⟨[c], rfl, by simp [Solid, Dense, solid]⟩

theorem Cut.more {cs mid after : List Char} (first : Cut Solid cs mid) (second : Cut Dense mid after) :
    Cut Solid cs after :=
  first.trans second fun _ _ => Solid.append

/-- The kinds of tokens that are neither white space nor comments. -/
def isCode : Kind → Bool
  | .lineHint | .blockHint | .lineComment | .blockComment | .lineEnd | .blank => false
  | _ => true

theorem isCode_of_isWordKind (kind : Kind) (word : isWordKind kind = true) : isCode kind = true := by
  cases kind <;> first | rfl | contradiction

inductive Shaped (kind : Kind) (taken : List Char) : Prop
  | space (white : kind = .blank ∨ kind = .lineEnd) (filled : taken ≠ []) (all : ∀ c ∈ taken, isBlank c = true)
  | solid (code : isCode kind = true) (solid : Solid taken)
  | words (code : isCode kind = true) (words : Words taken)

theorem Shaped.filled {kind : Kind} {taken : List Char} (shaped : Shaped kind taken) : taken ≠ [] := by
  cases shaped with
  | space _ filled _ => exact filled
  | solid _ solid => exact solid.2
  | words _ words => exact words.filled

theorem Shaped.not_comment {kind : Kind} {taken text : List Char} (shaped : Shaped kind taken) :
    isComment ⟨kind, text⟩ = false := by
  cases shaped with
  | space white _ _ => rcases white with rfl | rfl <;> rfl
  | solid code _ | words code _ => cases kind <;> first | rfl | contradiction

theorem Shaped.blank {kind : Kind} {taken text : List Char} (shaped : Shaped kind taken)
    (white : isSpace ⟨kind, text⟩ = true) : ∀ c ∈ taken, isBlank c = true := by
  cases shaped with
  | space _ _ all => exact all
  | solid code _ | words code _ => cases kind <;> contradiction

theorem isHashQuote_of_wordy {c : Char} (wordy : isWordOrBlank c = true) : isHashQuote c = false := by
  by_contra quote
  simp only [Bool.not_eq_false, isHashQuote, Bool.or_eq_true, beq_iff_eq, or_assoc] at quote
  rcases quote with rfl | rfl | rfl <;> exact absurd wordy (by decide)

theorem Shaped.unquoted {kind : Kind} {taken : List Char} (shaped : Shaped kind taken) :
    ∀ c ∈ taken, isHashQuote c = false := by
  cases shaped with
  | space _ _ all => exact fun c member => isHashQuote_of_wordy (wordy_of_blank all c member)
  | solid _ solid => exact fun c member => ((isSolid_iff c).mp (solid.1 c member)).2
  | words _ words => exact fun c member => isHashQuote_of_wordy (words.1 c member)

/-! Rules for tokens without white space. -/

section Rules
variable {before : Option Char} {cs after : List Char} {kind : Kind}

theorem solid_word? (found : word? cs = some after) : Cut Solid cs after := by
  unfold word? at found
  split at found
  next start =>
    cases Option.some.inj found
    cases cs with
    | nil => simp at start
    | cons c rest =>
      rw [List.head?_cons, Option.any_some] at start
      rw [List.dropWhile_cons_of_pos start]
      exact (solid_char (isSolid_of_isWord c start) rest).more (dense_run isWord isSolid_of_isWord rest)
  next => contradiction

/-- A word behind marks. -/
theorem shaped_marked {k : Kind} (front : List Char) {rest : List Char} (dense : Dense front) (code : isCode k = true)
    (found : (word? rest).map (k, ·) = some (kind, after)) : Cut (Shaped kind) (front ++ rest) after := by
  obtain ⟨reached, word, same⟩ := Option.map_eq_some_iff.mp found
  cases same
  have whole : Cut Solid (front ++ rest) after :=
    Cut.trans ⟨front, rfl, dense⟩ (solid_word? word) fun _ _ => Dense.append_solid
  exact whole.mono fun _ => .solid code

theorem shaped_earlyMark (found : earlyMark cs = some (kind, after)) : Cut (Shaped kind) cs after := by
  unfold earlyMark at found
  split at found <;> cases found
  · exact (solid_front [':', '='] _ (by decide)).mono fun _ => .solid rfl
  · exact (solid_front [':', ':'] _ (by decide)).mono fun _ => .solid rfl
  · exact (solid_char (c := '*') (by decide) _).mono fun _ => .solid rfl

theorem shaped_percentPlaceholder (found : percentPlaceholder cs = some (kind, after)) :
    Cut (Shaped kind) cs after := by
  have visible (s : Char) (letter : isLetter 'S' s = true) : isSolid s = true :=
    isSolid_of_isWord s (isWord_of_isLetter 'S' s (by decide) letter)
  unfold percentPlaceholder at found
  split at found
  next rest =>
    split at found
    next s reached word =>
      split at found
      next letter =>
        cases found
        have name := solid_word? word
        have close : Cut Dense (')' :: s :: after) after := ⟨[')', s], rfl, by simp [Dense, visible s letter]; decide⟩
        have whole := (solid_front ['%', '('] rest (by decide)).more
          ((name.more close).mono fun _ solid => solid.1)
        exact whole.mono fun _ => .solid rfl
      next => cases found
    next => cases found
  next s reached _ =>
    split at found
    next letter =>
      cases found
      have solid : Solid ['%', s] := by simp [Solid, Dense, visible s letter]; decide
      exact (solid_front _ _ solid).mono fun _ => .solid rfl
    next => cases found
  next => cases found

theorem shaped_placeholder (found : placeholder before cs = some (kind, after)) : Cut (Shaped kind) cs after := by
  unfold placeholder at found
  have marked (front : List Char) {rest : List Char} (dense : Dense front)
      (found : (if before.any isWord then none else (word? rest).map (Kind.placeholder, ·)) = some (kind, after)) :
      Cut (Shaped kind) (front ++ rest) after := by
    split at found
    · contradiction
    · exact shaped_marked front dense rfl found
  split at found
  · cases found
    exact (solid_char (c := '?') (by decide) _).mono fun _ => .solid rfl
  · exact marked ['$'] (by decide) found
  · exact marked [':'] (by decide) found
  · exact shaped_percentPlaceholder found

theorem shaped_command (found : command cs = some (kind, after)) : Cut (Shaped kind) cs after := by
  unfold command at found
  split at found
  · exact shaped_marked ['\\'] (by decide) rfl found
  · contradiction

theorem shaped_earlyWord (found : earlyWord cs = some (kind, after)) :
    Cut Words cs after ∧ wordEnds after = true ∧ isWordKind kind = true := by
  obtain ⟨reached, first, same⟩ := Option.map_eq_some_iff.mp found
  cases same
  obtain ⟨cut, ends⟩ := cut_firstPhrase _ cs after (by decide) first
  exact ⟨cut, ends, rfl⟩

theorem shaped_markedName (found : markedName cs = some (kind, after)) : Cut (Shaped kind) cs after := by
  have marked (front rest : List Char) (c : Char) (dense : Dense front)
      (found : (if isNameStart c then (word? rest).map (Kind.name, ·) else none) = some (kind, after)) :
      Cut (Shaped kind) (front ++ c :: rest) after := by
    split at found
    next start =>
      have letter : Dense [c] := by simp [Dense, isSolid_of_isNameStart c start]
      have whole := shaped_marked _ (dense.append letter) rfl found
      rwa [List.append_assoc] at whole
    next => contradiction
  unfold markedName at found
  split at found
  · exact marked ['#', '#'] _ _ (by decide) found
  · exact marked ['@'] _ _ (by decide) found
  · exact marked ['#'] _ _ (by decide) found
  · contradiction

theorem shaped_linkedName (found : linkedName before cs = some (kind, after)) : Cut (Shaped kind) cs after := by
  unfold linkedName at found
  dsimp only at found
  simp only [Option.ite_none_right_eq_some] at found
  obtain ⟨start, _, same⟩ := found
  cases same
  cases cs with
  | nil => simp at start
  | cons c rest =>
    rw [List.head?_cons, Option.any_some] at start
    have letter := solid_char (isSolid_of_isNameStart c start) rest
    exact (letter.more (dense_run isWord isSolid_of_isWord rest)).mono fun _ => .solid rfl

theorem dense_dropHyphen (cs : List Char) : Cut Dense cs (dropHyphen cs) := by
  unfold dropHyphen
  split
  · exact ⟨['-'], rfl, by decide⟩
  · exact ⟨[], rfl, by decide⟩

theorem isSolid_of_isDigit (c : Char) (digit : isDigit c = true) : isSolid c = true :=
  isSolid_of_isWord c (isWord_of_isDigit c digit)

theorem isSolid_of_isHexDigit (c : Char) (digit : isHexDigit c = true) : isSolid c = true := by
  rw [isHexDigit, Bool.or_eq_true] at digit
  rcases digit with decimal | letter
  · exact isSolid_of_isDigit c decimal
  · by_cases ascii : c.toNat < 128
    · exact forall_ascii (P := fun c => isHexDigit.hexLetter c = true → isSolid c = true) (by decide) c ascii
        letter
    · simp only [isHexDigit.hexLetter, toUpper_of_foreign c ascii, Bool.and_eq_true, decide_eq_true_eq] at letter
      exact absurd (Nat.lt_of_le_of_lt letter.2 (by decide)) ascii

theorem shaped_hexNumber (found : hexNumber cs = some (kind, after)) : Cut (Shaped kind) cs after := by
  have hyphen := dense_dropHyphen cs
  unfold hexNumber at found
  split at found
  next x c rest unsigned =>
    split at found
    next hex =>
      cases found
      rw [Bool.and_eq_true] at hex
      rw [unsigned] at hyphen
      have letter := isSolid_of_isWord x (isWord_of_isLetter 'X' x (by decide) hex.1)
      have front : Solid ['0', x, c] := by
        simp [Solid, Dense, letter, isSolid_of_isHexDigit c hex.2]
        decide
      have digits := (solid_front _ rest front).more (dense_run isHexDigit isSolid_of_isHexDigit rest)
      exact (hyphen.trans digits fun _ _ => Dense.append_solid).mono fun _ => .solid rfl
    next => contradiction
  next => contradiction

/-- A run of digits that begins with one. -/
theorem solid_digits (start : startsWithDigit cs = true) : Cut Solid cs (cs.dropWhile isDigit) := by
  cases cs with
  | nil => simp [startsWithDigit] at start
  | cons c rest =>
    rw [startsWithDigit, List.head?_cons, Option.any_some] at start
    rw [List.dropWhile_cons_of_pos start]
    exact (solid_char (isSolid_of_isDigit c start) rest).more (dense_run isDigit isSolid_of_isDigit rest)

/-- A point and digits, if there are any. -/
theorem dense_fraction (whole : List Char) : Cut Dense whole (match whole with
    | '.' :: rest => if startsWithDigit rest then rest.dropWhile isDigit else whole
    | _ => whole) := by
  have none : Cut Dense whole whole := ⟨[], rfl, by decide⟩
  split
  next rest =>
    split
    · exact Cut.trans ⟨['.'], rfl, by decide⟩ (dense_run isDigit isSolid_of_isDigit rest) fun _ _ => Dense.append
    · exact none
  next => exact none

theorem shaped_exponentNumber (found : exponentNumber cs = some (kind, after)) : Cut (Shaped kind) cs after := by
  have hyphen := dense_dropHyphen cs
  unfold exponentNumber at found
  dsimp only at found
  split at found
  next start =>
    have digits := hyphen.trans (solid_digits start) fun _ _ => Dense.append_solid
    split at found
    next e rest reached =>
      have mantissa : Cut Solid cs (e :: rest) := by
        rw [← reached]
        exact digits.more (dense_fraction _)
      split at found
      next power =>
        cases found
        rw [Bool.and_eq_true] at power
        have letter := isSolid_of_isWord e (isWord_of_isLetter 'E' e (by decide) power.1)
        have sign : Cut Dense (e :: rest) (dropHyphen rest) :=
          Cut.trans ⟨[e], rfl, by simp [Dense, letter]⟩ (dense_dropHyphen rest) fun _ _ => Dense.append
        have exponent := (mantissa.more sign).more (dense_run isDigit isSolid_of_isDigit _)
        exact exponent.mono fun _ => .solid rfl
      next => contradiction
    next => contradiction
  next => contradiction

theorem cut_digitRun (least : Nat) (found : digitRun least cs = some after) :
    Cut (fun taken => Dense taken ∧ least ≤ taken.length) cs after := by
  have digits (c : Char) (member : c ∈ cs.takeWhile isDigit) : isSolid c = true :=
    isSolid_of_isDigit c (List.mem_takeWhile_imp member)
  unfold digitRun at found
  dsimp only at found
  split at found
  · contradiction
  next enough =>
    split at found
    · cases found
      exact ⟨cs.takeWhile isDigit, List.takeWhile_append_dropWhile.symm, digits, Nat.not_lt.mp enough⟩
    · split at found
      · contradiction
      next longer =>
        cases found
        -- All but the last digit are taken.
        have front : cs.take ((cs.takeWhile isDigit).length - 1) <+: cs.takeWhile isDigit :=
          List.prefix_of_prefix_length_le (List.take_prefix _ _) (List.takeWhile_prefix _)
            ((List.length_take_le _ _).trans (Nat.sub_le _ _))
        have short := (List.takeWhile_prefix isDigit (l := cs)).length_le
        refine ⟨_, (List.take_append_drop _ _).symm, fun c member => digits c (front.subset member), ?_⟩
        rw [List.length_take]
        omega

theorem shaped_plainNumber (found : plainNumber cs = some (kind, after)) : Cut (Shaped kind) cs after := by
  have hyphen := dense_dropHyphen cs
  have run (least : Nat) {rest : List Char} (found : digitRun least rest = some after) : Cut Dense rest after :=
    (cut_digitRun least found).mono fun _ holds => holds.1
  have whole {rest : List Char} (found : digitRun 1 rest = some after) : Cut Solid rest after :=
    (cut_digitRun 1 found).mono fun _ holds => ⟨holds.1, List.ne_nil_of_length_pos holds.2⟩
  obtain ⟨reached, number, same⟩ := Option.map_eq_some_iff.mp found
  cases same
  have digits : Cut Solid (dropHyphen cs) after := by
    rcases orElse_eq_some number with pointed | plain
    · split at pointed
      next rest start =>
        rw [start]
        exact (solid_char (c := '.') (by decide) rest).more (run 1 pointed)
      next =>
        split at pointed
        next start =>
          split at pointed
          next rest point =>
            have front := solid_digits start
            rw [point] at front
            have fraction : Cut Dense ('.' :: rest) after :=
              Cut.trans ⟨['.'], rfl, by decide⟩ (run 0 pointed) fun _ _ => Dense.append
            exact front.more fraction
          next => contradiction
        next => contradiction
    · exact whole plain
  exact (hyphen.trans digits fun _ _ => Dense.append_solid).mono fun _ => .solid rfl

theorem isSolid_of_isWordPart (c : Char) (part : isWordPart c = true) : isSolid c = true := by
  simp only [isWordPart, Bool.or_eq_true, beq_iff_eq] at part
  rcases part with (word | rfl) | rfl
  · exact isSolid_of_isWord c word
  · decide
  · decide

theorem isWordKind_wordKind (word : String) : isWordKind (wordKind word) = true := by
  unfold wordKind
  split_ifs <;> rfl

theorem shaped_plainWord (found : plainWord cs = some (kind, after)) : Cut (Shaped kind) cs after := by
  unfold plainWord at found
  split at found
  next start =>
    cases found
    cases cs with
    | nil => simp at start
    | cons c rest =>
      rw [List.head?_cons, Option.any_some] at start
      have part : isWordPart c = true := by simp [isWordPart, start]
      rw [List.dropWhile_cons_of_pos part]
      have letter := solid_char (isSolid_of_isWord c start) rest
      have code :=
        isCode_of_isWordKind _ (isWordKind_wordKind (String.ofList (upper ((c :: rest).takeWhile isWordPart))))
      exact (letter.more (dense_run isWordPart isSolid_of_isWordPart rest)).mono fun _ => .solid code
  next => contradiction

theorem shaped_space (found : space cs = some (kind, after)) : Cut (Shaped kind) cs after := by
  have single (c : Char) (blank : isBlank c = true) : ∀ d ∈ [c], isBlank d = true := by simp [blank]
  unfold space at found
  split at found
  · cases found
    exact ⟨['\r', '\n'], rfl, .space (.inr rfl) (by simp) (by decide)⟩
  next c rest _ =>
    split at found
    next ends =>
      have blank : isBlank c = true := by
        simp only [isLineEnd, Bool.or_eq_true, beq_iff_eq] at ends
        rcases ends with rfl | rfl <;> decide
      cases found
      exact ⟨[c], rfl, .space (.inr rfl) (by simp) (single c blank)⟩
    next =>
      split at found
      next blank =>
        cases found
        exact ⟨[c], rfl, .space (.inl rfl) (by simp) (single c blank)⟩
      next => cases found
  next => cases found

theorem shaped_sign (found : sign cs = some (kind, after)) : Cut (Shaped kind) cs after := by
  have front (front : List Char) {rest : List Char} (solid : Solid front)
      (found : some (Kind.operator, rest) = some (kind, after)) : Cut (Shaped kind) (front ++ rest) after := by
    cases found
    exact (solid_front _ _ solid).mono fun _ => .solid rfl
  have signs (p : Char → Bool) (known : List Char) (listed : p = known.contains)
      (visible : ∀ c ∈ known, isSolid c = true) (c : Char) (first : p c = true) (rest : List Char) :
      Cut Solid (c :: rest) (rest.dropWhile p) := by
    subst listed
    have each (c : Char) (among : known.contains c = true) : isSolid c = true :=
      visible c (List.contains_iff_mem.mp among)
    exact (solid_char (each c first) rest).more (dense_run _ each rest)
  unfold sign at found
  split at found
  · exact front ['-', '>', '>'] (by decide) found
  · exact front ['-', '>'] (by decide) found
  · exact front ['#', '>', '>'] (by decide) found
  · exact front ['#', '>'] (by decide) found
  · exact front ['@', '>'] (by decide) found
  · exact front ['<', '@'] (by decide) found
  · exact front ['-'] (by decide) found
  · exact front ['#', '-'] (by decide) found
  next c rest _ _ _ _ _ _ _ _ =>
    split at found
    next mark =>
      cases found
      have visible : ∀ c ∈ [';', ':', '(', ')', '[', ']', ',', '.'], isSolid c = true := by decide
      exact (solid_char (visible c (List.contains_iff_mem.mp mark)) _).mono fun _ => .solid rfl
    next =>
      split at found
      next comparison =>
        cases found
        exact (signs isComparisonSign _ rfl (by decide) c comparison rest).mono fun _ => .solid rfl
      next =>
        split at found
        next operator =>
          cases found
          exact (signs isOperatorSign _ rfl (by decide) c operator rest).mono fun _ => .solid rfl
        next => contradiction
  next => contradiction

end Rules

/-! All rules together. -/

/-- Two characters that open a comment. -/
def opensComment : List Char → Bool
  | '/' :: '*' :: _ | '-' :: '-' :: _ | '#' :: ' ' :: _ => true
  | _ => false

/-- Characters that open what is enclosed between two marks. -/
def enclosing : List Char := ['\x60', '´', '\x27', '\x22', '$', '[']

theorem quoted_of_other (k : Kind) (q : Quoting) (c : Char) (rest : List Char) (other : c ≠ q.mark) :
    quoted k q (c :: rest) = none := if_neg other

/-- Without comments and enclosed texts thirteen rules are left. -/
theorem leading_of_plain (before : Option Char) {c : Char} {rest : List Char} (plain : c ∉ enclosing)
    (quiet : opensComment (c :: rest) = false) :
    leading before (c :: rest) = (space (c :: rest) <|> earlyMark (c :: rest) <|> placeholder before (c :: rest) <|>
      command (c :: rest) <|> earlyWord (c :: rest) <|> markedName (c :: rest) <|> linkedName before (c :: rest) <|>
      hexNumber (c :: rest) <|> exponentNumber (c :: rest) <|> plainNumber (c :: rest) <|>
      leadingPhrase (c :: rest) <|> plainWord (c :: rest) <|> sign (c :: rest)) := by
  have other (mark : Char) (member : mark ∈ enclosing) : c ≠ mark := fun same => plain (same ▸ member)
  have unopened : block (c :: rest) = none := by
    unfold block
    split
    next same =>
      rw [same] at quiet
      contradiction
    next => rfl
  have unlined : line (c :: rest) = none := by
    unfold line
    split
    next same =>
      rw [same] at quiet
      contradiction
    next same =>
      rw [same] at quiet
      contradiction
    next => rfl
  have undollared : dollarString before (c :: rest) = none := by
    unfold dollarString
    split
    next same => exact absurd (List.cons.inj same).1 (other '$' (by decide))
    next => rfl
  have unbracketed : bracketName before (c :: rest) = none := by
    unfold bracketName
    split
    next same => exact absurd (List.cons.inj same).1 (other '[' (by decide))
    next => rfl
  unfold leading
  rw [unopened, undollared, unlined, unbracketed, quoted_of_other _ _ c rest (other '\x60' (by decide)),
    quoted_of_other _ _ c rest (other '´' (by decide)), quoted_of_other _ _ c rest (other '\x27' (by decide)),
    quoted_of_other _ _ c rest (other '\x22' (by decide))]
  rfl

theorem isCode_of_leadingPhrase {cs after : List Char} {kind : Kind}
    (found : leadingPhrase cs = some (kind, after)) : isCode kind = true := by
  have mapped {k : Kind} {x : Option (List Char)} (code : isCode k = true) (hit : x.map (k, ·) = some (kind, after)) :
      isCode kind = true := by
    obtain ⟨_, _, same⟩ := Option.map_eq_some_iff.mp hit
    rwa [(Prod.mk.inj same).1] at code
  unfold leadingPhrase at found
  rcases orElse_eq_some found with table | found
  · exact isCode_of_isWordKind kind (cut_phrases phrases cs after kind (by decide) table).2.2
  rcases orElse_eq_some found with go | found
  · exact mapped rfl go
  rcases orElse_eq_some found with view | found
  · exact mapped rfl view
  rcases orElse_eq_some found with zone | found
  · exact mapped rfl zone
  rcases orElse_eq_some found with like | regexp
  · exact mapped rfl like
  · exact mapped rfl regexp

theorem shaped_leading {before : Option Char} {c : Char} {rest after : List Char} {kind : Kind} (plain : c ∉ enclosing)
    (quiet : opensComment (c :: rest) = false) (unzoned : timeZone (c :: rest) = none)
    (found : leading before (c :: rest) = some (kind, after)) : Cut (Shaped kind) (c :: rest) after := by
  have words (holds : Cut Words (c :: rest) after ∧ wordEnds after = true ∧ isWordKind kind = true) :
      Cut (Shaped kind) (c :: rest) after :=
    holds.1.mono fun _ => .words (isCode_of_isWordKind kind holds.2.2)
  rw [leading_of_plain before plain quiet] at found
  rcases orElse_eq_some found with hit | found
  · exact shaped_space hit
  rcases orElse_eq_some found with hit | found
  · exact shaped_earlyMark hit
  rcases orElse_eq_some found with hit | found
  · exact shaped_placeholder hit
  rcases orElse_eq_some found with hit | found
  · exact shaped_command hit
  rcases orElse_eq_some found with hit | found
  · exact words (shaped_earlyWord hit)
  rcases orElse_eq_some found with hit | found
  · exact shaped_markedName hit
  rcases orElse_eq_some found with hit | found
  · exact shaped_linkedName hit
  rcases orElse_eq_some found with hit | found
  · exact shaped_hexNumber hit
  rcases orElse_eq_some found with hit | found
  · exact shaped_exponentNumber hit
  rcases orElse_eq_some found with hit | found
  · exact shaped_plainNumber hit
  rcases orElse_eq_some found with hit | found
  · exact words (cut_leadingPhrase _ _ _ unzoned hit)
  rcases orElse_eq_some found with hit | hit
  · exact shaped_plainWord hit
  · exact shaped_sign hit


/-- Where no comment opens the first token is none, quoted or not, and it is white space only if it begins with some. -/
theorem isCode_of_leading {before : Option Char} {c : Char} {rest after : List Char} {kind : Kind}
    (quiet : opensComment (c :: rest) = false) (found : leading before (c :: rest) = some (kind, after)) :
    isCode kind = true ∨ isBlank c = true ∧ (kind = .blank ∨ kind = .lineEnd) := by
  have shaped (cut : Cut (Shaped kind) (c :: rest) after) :
      isCode kind = true ∨ isBlank c = true ∧ (kind = .blank ∨ kind = .lineEnd) := by
    obtain ⟨taken, split, shape⟩ := cut
    cases shape with
    | space white filled all =>
      obtain ⟨b, more, rfl⟩ := List.exists_cons_of_ne_nil filled
      obtain ⟨rfl, _⟩ := List.cons.inj split
      exact .inr ⟨all c (List.mem_cons_self ..), white⟩
    | solid code _ | words code _ => exact .inl code
  have mapped {α : Type} {x : Option α} {f : α → Kind × List Char} (code : ∀ a, isCode (f a).1 = true)
      (hit : x.map f = some (kind, after)) : isCode kind = true := by
    obtain ⟨a, _, same⟩ := Option.map_eq_some_iff.mp hit
    have holds := code a
    rwa [same] at holds
  have between {k : Kind} {q : Quoting} (code : isCode k = true) (hit : quoted k q (c :: rest) = some (kind, after)) :
      isCode kind = true := by
    rw [quoted, Option.ite_none_right_eq_some] at hit
    exact mapped (fun _ => code) hit.2
  unfold leading at found
  rcases orElse_eq_some found with hit | found
  · unfold block at hit
    split at hit
    next same =>
      rw [same] at quiet
      contradiction
    next => contradiction
  rcases orElse_eq_some found with hit | found
  · unfold dollarString at hit
    split at hit
    · dsimp only at hit
      split at hit
      · contradiction
      · split at hit
        · exact .inl (mapped (fun _ => rfl) hit)
        · contradiction
    · contradiction
  rcases orElse_eq_some found with hit | found
  · unfold line at hit
    split at hit
    next same =>
      rw [same] at quiet
      contradiction
    next same =>
      rw [same] at quiet
      contradiction
    next => contradiction
  rcases orElse_eq_some found with hit | found
  · exact shaped (shaped_space hit)
  rcases orElse_eq_some found with hit | found
  · exact shaped (shaped_earlyMark hit)
  rcases orElse_eq_some found with hit | found
  · exact .inl (between rfl hit)
  rcases orElse_eq_some found with hit | found
  · exact .inl (between rfl hit)
  rcases orElse_eq_some found with hit | found
  · exact shaped (shaped_placeholder hit)
  rcases orElse_eq_some found with hit | found
  · exact shaped (shaped_command hit)
  rcases orElse_eq_some found with hit | found
  · exact .inl (isCode_of_isWordKind kind (shaped_earlyWord hit).2.2)
  rcases orElse_eq_some found with hit | found
  · exact shaped (shaped_markedName hit)
  rcases orElse_eq_some found with hit | found
  · exact shaped (shaped_linkedName hit)
  rcases orElse_eq_some found with hit | found
  · exact shaped (shaped_hexNumber hit)
  rcases orElse_eq_some found with hit | found
  · exact shaped (shaped_exponentNumber hit)
  rcases orElse_eq_some found with hit | found
  · exact shaped (shaped_plainNumber hit)
  rcases orElse_eq_some found with hit | found
  · exact .inl (between rfl hit)
  rcases orElse_eq_some found with hit | found
  · exact .inl (between rfl hit)
  rcases orElse_eq_some found with hit | found
  · unfold bracketName at hit
    split at hit
    · split at hit
      · contradiction
      · dsimp only at hit
        split at hit
        · cases hit
          exact .inl rfl
        · contradiction
    · contradiction
  rcases orElse_eq_some found with hit | found
  · exact .inl (isCode_of_leadingPhrase hit)
  rcases orElse_eq_some found with hit | hit
  · exact shaped (shaped_plainWord hit)
  · exact shaped (shaped_sign hit)

end SqlSchema.Token
