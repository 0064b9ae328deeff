import SqlSchema.Proofs.Statement.Lines
import SqlSchema.Proofs.Statement.Split
import SqlSchema.Proofs.Text.Trim
import SqlSchema.Proofs.Token.Scan
import SqlSchema.Proofs.Token.Shape
import SqlSchema.Proofs.Written.Numeral
import SqlSchema.Statement.Strip

/-! Neat texts: words, numerals, quoted names, parentheses, commas and single spaces on one line. Taking out comments
leaves them as they are, although names may hold what would open a comment elsewhere. -/
namespace SqlSchema.Written
open Text Reader Token Statement

/-- A neat text that closes so many parentheses more than it opens. -/
inductive Neat (d : Dialect) : Nat → List Char → Prop
  | nil : Neat d 0 []
  | space {n cs} (neat : Neat d n cs) : Neat d n (' ' :: cs)
  | comma {n cs} (neat : Neat d n cs) : Neat d n (',' :: cs)
  | point {n cs} (neat : Neat d n (Rule.nameMark d :: cs)) : Neat d n ('.' :: Rule.nameMark d :: cs)
  | opening {n cs} (shallow : n < nestingLimit) (neat : Neat d (n + 1) cs) : Neat d n ('(' :: cs)
  | closing {n cs} (neat : Neat d n cs) : Neat d (n + 1) (')' :: cs)
  | word {n cs} (w : Word) (parted : Parted cs) (apart : w.text = "GO" → cs.head? ≠ some ' ') (neat : Neat d n cs) :
    Neat d n (w.text.toList ++ cs)
  | numeral {n cs} (m : Figures) (parted : Parted cs) (neat : Neat d n cs) : Neat d n (m.chars ++ cs)
  | name {n cs} (x : Label) (ended : cs.head? ≠ some (Rule.nameMark d)) (neat : Neat d n cs) :
    Neat d n (x.quoted d ++ cs)

/-! Words and what stands behind them. -/

theorem of_isPlainWord {P : Char → Prop} (all : ∀ n < 128, Rule.isPlainWord (Char.ofNat n) = true → P (Char.ofNat n))
    (c : Char) (plain : Rule.isPlainWord c = true) : P c :=
  forall_ascii (P := fun c => Rule.isPlainWord c = true → P c) all c (Rule.ascii_of_isPlainWord c plain) plain

theorem isWord_of_isPlainWord (c : Char) (plain : Rule.isPlainWord c = true) : isWord c = true :=
  of_isPlainWord (P := fun c => isWord c = true) (by decide) c plain

theorem Word.isWord (w : Word) (c : Char) (member : c ∈ w.text.toList) : Text.isWord c = true :=
  isWord_of_isPlainWord c (w.isPlainWord c member)

theorem Figures.isPlainWord (m : Figures) (c : Char) (member : c ∈ m.digits) : Rule.isPlainWord c = true := by
  simp [Rule.isPlainWord, Char.isAlphanum, m.decimal c member]

theorem Figures.isWord (m : Figures) (c : Char) (member : c ∈ m.digits) : Text.isWord c = true :=
  isWord_of_isPlainWord c (m.isPlainWord c member)

theorem Figures.forall_chars {P : Char → Prop} (m : Figures) (plain : ∀ c, Rule.isPlainWord c = true → P c)
    (signs : ∀ c ∈ ['+', '-'], P c) : ∀ c ∈ m.chars, P c := by
  intro c member
  rcases m.mem_chars c member with digit | sign
  · exact plain c (by simp [Rule.isPlainWord, Char.isAlphanum, digit])
  · exact signs c sign

theorem dropWhile_parted {p : Char → Bool} {front cs : List Char} (parted : Parted cs) (all : ∀ c ∈ front, p c = true)
    (none : ∀ c ∈ separators, p c = false) : (front ++ cs).dropWhile p = cs := by
  obtain ⟨c, separator, head⟩ := parted
  obtain ⟨tail, rfl⟩ := List.head?_eq_some_iff.mp head
  rw [List.dropWhile_append_of_pos all, List.dropWhile_cons_of_neg (by simp [none c separator])]

theorem not_wordEnds {c : Char} (word : Text.isWord c = true) (cs : List Char) : wordEnds (c :: cs) ≠ true := by
  simp [wordEnds, word]

/-- What ends where a word ends has taken the whole word in front. -/
theorem whole_word {front cs taken after : List Char} (all : ∀ c ∈ front, Text.isWord c = true) (filled : front ≠ [])
    (split : front ++ cs = taken ++ after) (ends : wordEnds after = true) :
    ∃ more, taken = front ++ more ∧ cs = more ++ after := by
  rcases List.append_eq_append_iff.mp split with ⟨more, rfl, rest⟩ | ⟨more, rfl, rest⟩
  · exact ⟨more, rfl, rest⟩
  · cases more with
    | nil => exact ⟨[], by simp, by simpa using rest.symm⟩
    | cons c others =>
      rw [rest] at ends
      exact absurd ends (not_wordEnds (all c (by simp)) _)

namespace Neat

variable {d : Dialect} {n : Nat} {cs : List Char}

/-- A character that is neither of a word nor white space is not taken. -/
theorem stops {c : Char} {rest taken after : List Char} (neat : Neat d n (c :: rest)) (other : isWordOrBlank c = false)
    (wordy : Wordy taken) (split : c :: rest = taken ++ after) : Neat d n after := by
  cases taken with
  | nil =>
    rw [List.nil_append] at split
    rwa [← split]
  | cons b more =>
    rw [(List.cons.inj split).1, wordy b (List.mem_cons_self ..)] at other
    contradiction

theorem of_space (neat : Neat d n (' ' :: cs)) : Neat d n cs := by
  generalize spaced : ' ' :: cs = text at neat
  cases neat with
  | nil => contradiction
  | space neat =>
    rw [(List.cons.inj spaced).2]
    exact neat
  | comma neat | point neat | opening _ neat | closing neat => exact absurd (List.cons.inj spaced).1 (by decide)
  | word w parted apart neat =>
    obtain ⟨first, others, letters, start, _⟩ := w.split
    rw [letters] at spaced
    rw [← (List.cons.inj spaced).1] at start
    exact absurd start (by decide)
  | numeral m parted neat =>
    obtain ⟨first, others, chars, seen⟩ := m.seen.split
    rw [chars] at spaced
    rw [← (List.cons.inj spaced).1] at seen
    exact absurd seen (by decide)
  | name x ended neat =>
    have mark := (List.cons.inj spaced).1
    cases d <;> exact absurd mark (by decide)

theorem drop_words (neat : Neat d n cs) {taken after : List Char} (wordy : Wordy taken) (ends : wordEnds after = true)
    (split : cs = taken ++ after) : Neat d n after := by
  have shorter (front : List Char) {more : List Char} (wordy : Wordy (front ++ more)) : Wordy more :=
    fun c member => wordy c (List.mem_append_right _ member)
  induction neat generalizing taken with
  | nil =>
    rw [(List.append_eq_nil_iff.mp split.symm).2]
    exact .nil
  | space neat ih =>
    cases taken with
    | nil =>
      rw [List.nil_append] at split
      exact split ▸ .space neat
    | cons b more => exact ih (shorter [b] wordy) (List.cons.inj split).2
  | comma neat _ => exact stops (.comma neat) (by decide) wordy split
  | point neat _ => exact stops (.point neat) (by decide) wordy split
  | opening shallow neat _ => exact stops (.opening shallow neat) (by decide) wordy split
  | closing neat _ => exact stops (.closing neat) (by decide) wordy split
  | word w parted apart neat ih =>
    obtain ⟨first, others, letters, _⟩ := w.split
    obtain ⟨more, rfl, rest⟩ := whole_word w.isWord (by simp [letters]) split ends
    exact ih (shorter _ wordy) rest
  | numeral m parted neat ih =>
    have whole := Neat.numeral m parted neat
    cases sign : m.sign with
    | none =>
      rw [Figures.chars, sign, Sign.chars, List.nil_append] at split
      obtain ⟨more, rfl, rest⟩ := whole_word m.isWord m.filled split ends
      exact ih (shorter _ wordy) rest
    | plus =>
      rw [Figures.chars, sign] at whole split
      exact stops whole (by decide) wordy split
    | minus =>
      rw [Figures.chars, sign] at whole split
      exact stops whole (by decide) wordy split
  | name x ended neat _ => exact stops (.name x ended neat) (by cases d <;> decide) wordy split

theorem zoneless (neat : Neat d n cs) : Zoneless cs := by
  have stop {c : Char} (other : isWordOrBlank c = false) (rest : List Char) (usual : c ≠ '\x27') :
      Zoneless (c :: rest) := by
    rw [Zoneless, List.dropWhile_cons_of_neg (by simp [other])]
    simpa using usual
  have skip {front rest : List Char} (wordy : Wordy front) (behind : Zoneless rest) : Zoneless (front ++ rest) := by
    rwa [Zoneless, List.dropWhile_append_of_pos wordy]
  induction neat with
  | nil => simp [Zoneless]
  | space neat ih => exact skip (wordy_of_blank (by decide) : Wordy [' ']) ih
  | comma neat _ | opening _ neat _ | closing neat _ | point neat _ => exact stop (by decide) _ (by decide)
  | word w parted apart neat ih => exact skip (wordy_of_word w.isWord) ih
  | numeral m parted neat ih =>
    cases sign : m.sign with
    | none =>
      rw [Figures.chars, sign]
      exact skip (wordy_of_word m.isWord) ih
    | plus =>
      rw [Figures.chars, sign]
      exact stop (by decide) _ (by decide)
    | minus =>
      rw [Figures.chars, sign]
      exact stop (by decide) _ (by decide)
  | name x ended neat _ => exact stop (by cases d <;> decide) _ (by cases d <;> decide)

/-- There are neither line ends nor tabs. -/
theorem one_line (neat : Neat d n cs) : ∀ c ∈ cs, isLineEnd c = false ∧ c ≠ '\t' := by
  have plain := of_isPlainWord (P := fun c => isLineEnd c = false ∧ c ≠ '\t') (by decide)
  have usual {front rest : List Char} (first : ∀ c ∈ front, isLineEnd c = false ∧ c ≠ '\t')
      (more : ∀ c ∈ rest, isLineEnd c = false ∧ c ≠ '\t') : ∀ c ∈ front ++ rest, isLineEnd c = false ∧ c ≠ '\t' := by
    intro c member
    rcases List.mem_append.mp member with here | there
    · exact first c here
    · exact more c there
  induction neat with
  | nil => exact List.forall_mem_nil _
  | space neat ih | comma neat ih | closing neat ih | opening _ neat ih | point neat ih =>
    exact List.forall_mem_cons.mpr ⟨by decide, ih⟩
  | word w parted apart neat ih => exact usual (fun c member => plain c (w.isPlainWord c member)) ih
  | numeral m parted neat ih => exact usual (m.forall_chars plain (by decide)) ih
  | name x ended neat ih =>
    refine usual (fun c member => ?_) ih
    have mark : isLineEnd (Rule.nameMark d) = false ∧ Rule.nameMark d ≠ '\t' := by cases d <;> decide
    simp only [Label.quoted, List.mem_cons, List.mem_append, mem_double, List.not_mem_nil, or_false] at member
    rcases member with rfl | inside | rfl
    · exact mark
    · obtain ⟨_, tab, feed, turn⟩ := x.plain c inside
      exact ⟨by simp [isLineEnd, feed, turn], tab⟩
    · exact mark

end Neat

/-! Tokens of neat texts. -/

/-- What a token of a neat text does to the number of open parentheses. -/
def Moves (n : Nat) (t : Token) (m : Nat) : Prop :=
  if t.isMark '(' then n < nestingLimit ∧ m = n + 1 else if t.isMark ')' then n = m + 1 else m = n

/-- A token of a neat text, in front of the rest of it. -/
structure Fine (n : Nat) (t : Token) (m : Nat) (after : List Char) : Prop where
  comment : t.isComment = false
  moves : Moves n t m
  space : t.isSpace = true → t.text = [' ']
  separator : ends t = true → t.text = ['G', 'O'] ∧ after.head? ≠ some ' '

theorem fine_of_kind {kind : Token.Kind} (inert : kind ∈ [.name, .symbol, .number, .operator]) (n : Nat)
    (taken after : List Char) : Fine n ⟨kind, taken⟩ n after := by
  simp only [List.mem_cons, List.not_mem_nil, or_false] at inert
  rcases inert with rfl | rfl | rfl | rfl <;>
    exact ⟨rfl, rfl, fun space => absurd space Bool.false_ne_true, fun closing => absurd closing Bool.false_ne_true⟩

theorem fine_of_word {kind : Token.Kind} (word : isWordKind kind = true) (n : Nat) {taken after : List Char}
    (go : firstWord taken = ['G', 'O'] → taken = ['G', 'O'] ∧ after.head? ≠ some ' ') :
    Fine n ⟨kind, taken⟩ n after := by
  cases kind with
  | keyword role =>
    refine ⟨rfl, rfl, fun space => absurd space Bool.false_ne_true, fun closing => go ?_⟩
    have unmarked : Token.isMark ⟨.keyword role, taken⟩ ';' = false := rfl
    rw [ends, unmarked, Bool.false_or, Bool.and_eq_true, beq_iff_eq, beq_iff_eq] at closing
    exact closing.2
  | typeName | comparison | name | operator =>
    exact ⟨rfl, rfl, fun space => absurd space Bool.false_ne_true, fun closing => absurd closing Bool.false_ne_true⟩
  | _ => contradiction

theorem fine_of_mark (c : Char) (usual : c ∈ [',', '.', '(', ')']) (n m : Nat) (moves : Moves n ⟨.punctuation, [c]⟩ m)
    (after : List Char) : Fine n ⟨.punctuation, [c]⟩ m after := by
  have quiet : ∀ c ∈ [',', '.', '(', ')'], ends ⟨.punctuation, [c]⟩ = false := by decide
  refine ⟨rfl, moves, fun space => absurd space Bool.false_ne_true, fun closing => ?_⟩
  rw [quiet c usual] at closing
  contradiction

/-! Words. -/

/-- A number without a point is a run of digits. -/
theorem plainNumber_of_no_point {cs rest : List Char} {c : Char} (unsigned : dropHyphen cs = c :: rest) (bare : c ≠ '.')
    (whole : ((c :: rest).dropWhile isDigit).head? ≠ some '.') :
    plainNumber cs = (digitRun 1 (c :: rest)).map (.number, ·) := by
  unfold plainNumber
  rw [unsigned]
  dsimp only
  split
  next same => exact absurd (List.cons.inj same).1 bare
  next =>
    split
    · split
      next same =>
        rw [same] at whole
        exact absurd rfl whole
      next => rfl
    · rfl

theorem leading_of_isWordStart (before : Option Char) {c : Char} (start : Rule.isWordStart c = true)
    (rest : List Char) : leading before (c :: rest) = (earlyWord (c :: rest) <|> linkedName before (c :: rest) <|>
      leadingPhrase (c :: rest) <|> plainWord (c :: rest) <|> sign (c :: rest)) := by
  have other (d : Char) (foreign : Rule.isWordStart d = false) : c ≠ d := by
    rintro rfl
    rw [start] at foreign
    contradiction
  have ascii := Rule.ascii_of_isPlainWord c (Rule.isPlainWord_of_isWordStart c start)
  obtain ⟨visible, inside, letter⟩ : isBlank c = false ∧ isLineEnd c = false ∧ isDigit c = false :=
    forall_ascii (P := fun c => Rule.isWordStart c = true → isBlank c = false ∧ isLineEnd c = false ∧ isDigit c = false)
      (by decide) c ascii start
  have plain : c ∉ enclosing := fun member =>
    other c ((by decide : ∀ c ∈ enclosing, Rule.isWordStart c = false) c member) rfl
  have slash := other '/' (by decide)
  have hyphen := other '-' (by decide)
  have hash := other '#' (by decide)
  have quiet : opensComment (c :: rest) = false := by
    unfold opensComment
    split <;> simp_all
  have turn := other '\r' (by decide)
  have white : space (c :: rest) = none := by
    unfold space
    split <;> simp_all
  have colon := other ':' (by decide)
  have star := other '*' (by decide)
  have unmarked : earlyMark (c :: rest) = none := by
    unfold earlyMark
    split <;> simp_all
  have question := other '?' (by decide)
  have dollar := other '$' (by decide)
  have percent := other '%' (by decide)
  have held : percentPlaceholder (c :: rest) = none := by
    unfold percentPlaceholder
    split <;> simp_all
  have unheld : placeholder before (c :: rest) = none := by
    unfold placeholder
    split <;> simp_all
  have slashed := other '\\' (by decide)
  have uncommanded : command (c :: rest) = none := by
    unfold command
    split <;> simp_all
  have at_ := other '@' (by decide)
  have unnamed : markedName (c :: rest) = none := by
    unfold markedName
    split <;> simp_all
  have unsigned : dropHyphen (c :: rest) = c :: rest := by
    unfold dropHyphen
    split <;> simp_all
  have nought := other '0' (by decide)
  have unhexed : hexNumber (c :: rest) = none := by
    unfold hexNumber
    rw [unsigned]
    split <;> simp_all
  have undigited : startsWithDigit (c :: rest) = false := by simp [startsWithDigit, letter]
  have unraised : exponentNumber (c :: rest) = none := by
    simp [exponentNumber, unsigned, undigited]
  have point := other '.' (by decide)
  have unnumbered : plainNumber (c :: rest) = none := by
    rw [plainNumber_of_no_point unsigned point (by simp [letter, point])]
    simp [digitRun, letter]
  rw [leading_of_plain before plain quiet, white, unmarked, unheld, uncommanded, unnamed, unhexed, unraised, unnumbered]
  rfl

variable {w : Word} {rest : List Char}

/-- In front of a point or a parenthesis a word is a name, and nothing more. -/
theorem linkedName_word {before : Option Char} {kind : Token.Kind} {after : List Char} (parted : Parted rest)
    (found : linkedName before (w.text.toList ++ rest) = some (kind, after)) : kind = .name ∧ after = rest := by
  obtain ⟨first, more, letters, _, plain⟩ := w.split
  have tail : (w.text.toList ++ rest).tail.dropWhile isWord = rest := by
    rw [letters]
    exact dropWhile_parted parted (fun c member => isWord_of_isPlainWord c (plain c member)) (by decide)
  unfold linkedName at found
  dsimp only at found
  simp only [Option.ite_none_right_eq_some] at found
  obtain ⟨_, _, same⟩ := found
  rw [tail] at same
  cases same
  exact ⟨rfl, rfl⟩

theorem plainWord_word (parted : Parted rest) :
    ∃ kind, plainWord (w.text.toList ++ rest) = some (kind, rest) ∧ isWordKind kind = true := by
  obtain ⟨first, more, letters, _⟩ := w.split
  have drop : (w.text.toList ++ rest).dropWhile isWordPart = rest :=
    dropWhile_parted parted (fun c member => by simp [isWordPart, w.isWord c member]) (by decide)
  have begins : (w.text.toList ++ rest).head?.any isWord = true := by
    have word := w.isWord first (letters ▸ List.mem_cons_self ..)
    simp [letters, word]
  rw [plainWord, if_pos begins, drop]
  exact ⟨_, rfl, isWordKind_wordKind _⟩

/-- A word is taken whole, alone or in a phrase. -/
theorem leading_word (parted : Parted rest) (zoneless : Zoneless (w.text.toList ++ rest)) (before : Option Char) :
    ∃ kind after, leading before (w.text.toList ++ rest) = some (kind, after) ∧
      Cut Words (w.text.toList ++ rest) after ∧ wordEnds after = true ∧ isWordKind kind = true := by
  obtain ⟨first, more, letters, start, plain⟩ := w.split
  have ended : wordEnds rest = true := by
    obtain ⟨s, separator, head⟩ := parted
    obtain ⟨tail, rfl⟩ := List.head?_eq_some_iff.mp head
    exact (by decide : ∀ s ∈ separators, (!isWord s) = true) s separator
  have alone : Cut Words (w.text.toList ++ rest) rest := ⟨_, rfl, words_of_word w.isWord (by simp [letters])⟩
  have unfolded : leading before (w.text.toList ++ rest) = (earlyWord (w.text.toList ++ rest) <|>
      linkedName before (w.text.toList ++ rest) <|> leadingPhrase (w.text.toList ++ rest) <|>
      plainWord (w.text.toList ++ rest) <|> sign (w.text.toList ++ rest)) := by
    rw [letters]
    exact leading_of_isWordStart before start (more ++ rest)
  rw [unfolded]
  cases early : earlyWord (w.text.toList ++ rest) with
  | some result => exact ⟨_, _, rfl, shaped_earlyWord early⟩
  | none =>
    cases linked : linkedName before (w.text.toList ++ rest) with
    | some result =>
      obtain ⟨named, tail⟩ := linkedName_word parted linked
      exact ⟨_, _, rfl, tail ▸ alone, tail ▸ ended, named ▸ rfl⟩
    | none =>
      cases phrase : leadingPhrase (w.text.toList ++ rest) with
      | some result => exact ⟨_, _, rfl, cut_leadingPhrase _ _ _ (timeZone_of_zoneless _ zoneless) phrase⟩
      | none =>
        obtain ⟨kind, plain, word⟩ := plainWord_word (w := w) parted
        rw [plain]
        exact ⟨kind, rest, rfl, alone, ended, word⟩

/-! Numerals. -/

section Figures
variable (m : Figures)

/-- Of the rules for numbers the last one takes all digits. -/
theorem numbers_of_digits {cs : List Char} (unsigned : dropHyphen cs = m.digits ++ rest) (parted : Parted rest) :
    hexNumber cs = none ∧ exponentNumber cs = none ∧ plainNumber cs = some (.number, rest) := by
  obtain ⟨first, others, digits⟩ := List.exists_cons_of_ne_nil m.filled
  have decimal : ∀ c ∈ first :: others, isDigit c = true := digits ▸ m.isDigit_of_mem
  have start : startsWithDigit (dropHyphen cs) = true := by
    simp [unsigned, digits, startsWithDigit, decimal first (List.mem_cons_self ..)]
  have after : (dropHyphen cs).dropWhile isDigit = rest := by
    rw [unsigned]
    exact dropWhile_parted parted m.isDigit_of_mem (by decide)
  obtain ⟨s, separator, head⟩ := parted
  obtain ⟨tail, rfl⟩ := List.head?_eq_some_iff.mp head
  have facts : ∀ s ∈ separators, isLetter 'X' s = false ∧ isLetter 'E' s = false ∧
      isNameStartOrUnderscore s = false ∧ isDigit s = false ∧ s ≠ '.' := by decide
  obtain ⟨hex, exponent, word, digit, point⟩ := facts s separator
  refine ⟨?_, ?_, ?_⟩
  · unfold hexNumber
    split
    next x c more zero =>
      have letter : isLetter 'X' x = false := by
        rw [unsigned, digits] at zero
        cases others with
        | nil =>
          obtain ⟨rfl, _⟩ := List.cons.inj (List.cons.inj zero).2
          exact hex
        | cons d ds =>
          obtain ⟨rfl, _⟩ := List.cons.inj (List.cons.inj zero).2
          have plain := m.decimal d (by simp [digits])
          have ascii := Rule.ascii_of_isPlainWord d (by simp [Rule.isPlainWord, Char.isAlphanum, plain])
          exact forall_ascii (P := fun d => d.isDigit = true → isLetter 'X' d = false) (by decide) d ascii plain
      simp [letter]
    next => rfl
  · unfold exponentNumber
    dsimp only
    rw [start, after]
    simp [exponent, point]
  · have run : digitRun 1 (dropHyphen cs) = some (s :: tail) := by
      have taken : (dropHyphen cs).takeWhile isDigit = m.digits := by
        rw [unsigned, List.takeWhile_append_of_pos m.isDigit_of_mem, List.takeWhile_cons_of_neg (by simp [digit]),
          List.append_nil]
      have size : ¬ m.digits.length < 1 := by simp [digits]
      unfold digitRun
      dsimp only
      rw [taken, after, if_neg size]
      simp [word]
    have unpointed : first ≠ '.' := by
      rintro rfl
      exact absurd (decimal '.' (List.mem_cons_self ..)) (by decide)
    have split : dropHyphen cs = first :: (others ++ s :: tail) := by rw [unsigned, digits, List.cons_append]
    rw [split] at run after
    rw [plainNumber_of_no_point split unpointed (by rw [after]; simpa using point), run]
    rfl

/-- In front of digits, with or without a hyphen, only rules for numbers apply. -/
theorem leading_of_digit (before : Option Char) {c : Char} (digit : c.isDigit = true) (rest : List Char) :
    (∃ later, leading before (c :: rest) =
      (hexNumber (c :: rest) <|> exponentNumber (c :: rest) <|> plainNumber (c :: rest) <|> later)) ∧
    (∃ later, leading before ('-' :: c :: rest) =
      (hexNumber ('-' :: c :: rest) <|> exponentNumber ('-' :: c :: rest) <|> plainNumber ('-' :: c :: rest) <|>
        later)) := by
  have ascii := Rule.ascii_of_isPlainWord c (by simp [Rule.isPlainWord, Char.isAlphanum, digit])
  have among : c ∈ ['0', '1', '2', '3', '4', '5', '6', '7', '8', '9'] :=
    forall_ascii (P := fun c => c.isDigit = true → c ∈ ['0', '1', '2', '3', '4', '5', '6', '7', '8', '9'])
      (by decide) c ascii digit
  simp only [List.mem_cons, List.not_mem_nil, or_false] at among
  rcases among with rfl | rfl | rfl | rfl | rfl | rfl | rfl | rfl | rfl | rfl <;> exact ⟨⟨_, rfl⟩, ⟨_, rfl⟩⟩

theorem leading_digits (parted : Parted rest) (before : Option Char) :
    leading before (m.digits ++ rest) = some (.number, rest) ∧
      leading before ('-' :: (m.digits ++ rest)) = some (.number, rest) := by
  obtain ⟨first, others, digits⟩ := List.exists_cons_of_ne_nil m.filled
  obtain ⟨⟨_, bare⟩, ⟨_, negative⟩⟩ :=
    leading_of_digit before (m.decimal first (by simp [digits])) (others ++ rest)
  have unsigned : dropHyphen (m.digits ++ rest) = m.digits ++ rest := by
    have usual : first ≠ '-' := by
      rintro rfl
      exact absurd (m.decimal '-' (by simp [digits])) (by decide)
    rw [digits, List.cons_append]
    unfold dropHyphen
    split <;> simp_all
  obtain ⟨hex, exponent, plain⟩ := numbers_of_digits m unsigned parted
  obtain ⟨signedHex, signedExponent, signedPlain⟩ :=
    numbers_of_digits m (show dropHyphen ('-' :: (m.digits ++ rest)) = _ from rfl) parted
  rw [← List.cons_append, ← digits] at bare negative
  rw [bare, negative, hex, exponent, plain, signedHex, signedExponent, signedPlain]
  exact ⟨rfl, rfl⟩

end Figures

/-- Figures without their sign. -/
def Figures.unsigned (m : Figures) : Figures := { m with sign := .none }

theorem leading_plus (m : Figures) (before : Option Char) :
    leading before ('+' :: (m.digits ++ rest)) = some (.operator, m.digits ++ rest) := by
  obtain ⟨first, others, digits⟩ := List.exists_cons_of_ne_nil m.filled
  have plain := m.decimal first (by simp [digits])
  have ascii := Rule.ascii_of_isPlainWord first (by simp [Rule.isPlainWord, Char.isAlphanum, plain])
  have stop : isOperatorSign first = false :=
    forall_ascii (P := fun c => c.isDigit = true → isOperatorSign c = false) (by decide) first ascii plain
  have behind : (m.digits ++ rest).dropWhile isOperatorSign = m.digits ++ rest := by
    rw [digits, List.cons_append, List.dropWhile_cons_of_neg (by simp [stop])]
  exact (congrArg (fun after => some (Token.Kind.operator, after)) behind :)

/-! Names. -/

theorem leading_name (d : Dialect) (x : Label) (ended : rest.head? ≠ some (Rule.nameMark d)) (before : Option Char) :
    ∃ kind ∈ [Token.Kind.name, Token.Kind.symbol], leading before (x.quoted d ++ rest) = some (kind, rest) := by
  have split : x.quoted d ++ rest =
      Rule.nameMark d :: (double (Rule.nameMark d) x.text.toList ++ Rule.nameMark d :: rest) := by simp [Label.quoted]
  rw [split]
  cases d with
  | mysql =>
    have closed := Quoting.close_double ⟨'\x60', .nothing, false⟩ x.text.toList rest (Quoting.holds_of_unbroken _ x.unbroken) ended
    refine ⟨.name, by simp, ?_⟩
    unfold leading quoted
    dsimp only [Rule.nameMark]
    rw [if_pos rfl, closed]
    rfl
  | postgres =>
    have closed := Quoting.close_double ⟨'\x22', .quote, false⟩ x.text.toList rest (Quoting.holds_of_unbroken _ x.unbroken) ended
    refine ⟨.symbol, by simp, ?_⟩
    unfold leading quoted
    dsimp only [Rule.nameMark]
    rw [closed]
    rfl

/-- The first token of a neat text is followed by a neat text again. -/
theorem Neat.step {d : Dialect} {n : Nat} {cs : List Char} (neat : Neat d n cs) (filled : cs ≠ [])
    (before : Option Char) :
    ∃ kind taken after m, cs = taken ++ after ∧ taken ≠ [] ∧ leading before cs = some (kind, after) ∧
      Neat d m after ∧ Fine n ⟨kind, taken⟩ m after := by
  cases neat with
  | nil => exact absurd rfl filled
  | @space _ rest neat =>
    exact ⟨.blank, [' '], rest, n, rfl, by simp, rfl, neat, rfl, rfl, fun _ => rfl,
      fun closing => absurd closing Bool.false_ne_true⟩
  | @comma _ rest neat =>
    exact ⟨.punctuation, [','], rest, n, rfl, by simp, rfl, neat, fine_of_mark ',' (by simp) n n rfl rest⟩
  | @point _ rest neat =>
    have mark : leading before ('.' :: Rule.nameMark d :: rest) = some (.punctuation, Rule.nameMark d :: rest) := by
      cases d <;> rfl
    exact ⟨.punctuation, ['.'], _, n, rfl, by simp, mark, neat, fine_of_mark '.' (by simp) n n rfl _⟩
  | @opening _ rest shallow neat =>
    exact ⟨.punctuation, ['('], rest, n + 1, rfl, by simp, rfl, neat,
      fine_of_mark '(' (by simp) n (n + 1) ⟨shallow, rfl⟩ rest⟩
  | @closing m rest neat =>
    exact ⟨.punctuation, [')'], rest, m, rfl, by simp, rfl, neat, fine_of_mark ')' (by simp) (m + 1) m rfl rest⟩
  | @word _ rest w parted apart neat =>
    have whole : Neat d n (w.text.toList ++ rest) := .word w parted apart neat
    obtain ⟨first, others, letters, _⟩ := w.split
    have dense : ∀ c ∈ w.text.toList, isBlank c = false := fun c member => isBlank_of_isWord c (w.isWord c member)
    obtain ⟨kind, after, found, ⟨taken, split, words⟩, ends, word⟩ := leading_word parted whole.zoneless before
    obtain ⟨more, rfl, tail⟩ := whole_word w.isWord (by simp [letters]) split ends
    -- Only a space may follow the word in a phrase.
    have spaced : ∀ c, more.head? = some c → c = ' ' := by
      intro c head
      obtain ⟨others, rfl⟩ := List.head?_eq_some_iff.mp head
      obtain ⟨s, separator, here⟩ := parted
      have same : s = c := by simpa [tail] using here.symm
      have among : ∀ s ∈ separators, isWordOrBlank s = true → s = ' ' := by decide
      exact among c (same ▸ separator) (words.1 c (by simp))
    refine ⟨kind, _, after, n, split, words.filled, found, whole.drop_words words.1 ends split,
      fine_of_word word n fun go => ?_⟩
    rw [firstWord_append dense (by simp [letters]) fun c head => (spaced c head) ▸ by decide] at go
    have apart := apart (String.toList_inj.mp go)
    cases more with
    | nil =>
      rw [List.nil_append] at tail
      rw [go, ← tail]
      exact ⟨rfl, apart⟩
    | cons c others =>
      rw [spaced c rfl] at tail
      rw [tail] at apart
      exact absurd rfl apart
  | @numeral _ rest m parted neat =>
    obtain ⟨bare, negative⟩ := leading_digits m parted before
    have split : m.chars ++ rest = m.sign.chars ++ (m.digits ++ rest) := List.append_assoc ..
    rw [split]
    cases sign : m.sign with
    | none => exact ⟨.number, m.digits, rest, n, rfl, m.filled, bare, neat, fine_of_kind (by simp) ..⟩
    | minus => exact ⟨.number, '-' :: m.digits, rest, n, rfl, by simp, negative, neat, fine_of_kind (by simp) ..⟩
    | plus =>
      have unsigned : Neat d n (m.digits ++ rest) := .numeral m.unsigned parted neat
      exact ⟨.operator, ['+'], m.digits ++ rest, n, rfl, by simp, leading_plus m before, unsigned,
        fine_of_kind (by simp) ..⟩
  | @name _ rest x ended neat =>
    obtain ⟨kind, among, found⟩ := leading_name d x ended before
    refine ⟨kind, x.quoted d, rest, n, rfl, by simp [Label.quoted], found, neat, fine_of_kind ?_ ..⟩
    revert among
    simp
    tauto

/-! Runs. -/

/-- A token without a comment, and one that is blank or ends a statement only as neat texts have it. -/
def Tidy (t : Token) : Prop :=
  t.isComment = false ∧ (t.isSpace = true → t.text = [' ']) ∧ (ends t = true → t.text = ['G', 'O'])

theorem Neat.run {d : Dialect} {n : Nat} {cs : List Char} (neat : Neat d n cs) (before : Option Char) :
    (∀ t ∈ scanFrom before cs, Tidy t) ∧ Shallow nestingLimit n (scanFrom before cs) ∧ Brisk (scanFrom before cs) := by
  by_cases filled : cs = []
  · subst filled
    rw [scanFrom]
    exact ⟨List.forall_mem_nil _, trivial, .nil⟩
  · obtain ⟨kind, taken, after, m, rfl, full, found, later, fine⟩ := neat.step filled before
    obtain ⟨tidy, shallow, brisk⟩ := later.run taken.getLast?
    rw [scanFrom_append full found]
    have here : Tidy ⟨kind, taken⟩ := ⟨fine.comment, fine.space, fun closing => (fine.separator closing).1⟩
    refine ⟨List.forall_mem_cons.mpr ⟨here, tidy⟩, ?_, ?_⟩
    · have moves := fine.moves
      unfold Moves at moves
      unfold Shallow
      split_ifs at moves ⊢ with opening closing
      · exact ⟨moves.1, moves.2 ▸ shallow⟩
      · rwa [moves, Nat.add_sub_cancel]
      · exact moves ▸ shallow
    · refine List.IsChain.cons brisk fun t first closing => ?_
      obtain ⟨comment, space, _⟩ := tidy t (List.mem_of_mem_head? first)
      cases trailing : trails t with
      | false => rfl
      | true =>
        have blank : t.kind = .blank := by
          simp only [trails, Bool.or_eq_true, beq_iff_eq] at trailing
          refine trailing.resolve_right fun line => ?_
          simp [Token.isComment, line] at comment
        have one := space (by simp [Token.isSpace, blank])
        have head := head?_of_scanFrom first
        rw [one] at head
        exact absurd head (fine.separator closing).2
termination_by cs.length
decreasing_by
  have := List.length_pos_iff.mpr full
  subst_vars
  rw [List.length_append]
  omega

theorem Neat.tokens {d : Dialect} {n : Nat} {cs : List Char} (neat : Neat d n cs) :
    (∀ t ∈ scan cs, Tidy t) ∧ Shallow nestingLimit n (scan cs) ∧ Brisk (scan cs) := neat.run none

/-! Taking out comments. -/

theorem Neat.cutHashes {n : Nat} {cs : List Char} (neat : Neat .mysql n cs) : cutHashes cs = cs := by
  have skip (front : List Char) {rest : List Char} (plain : ∀ c ∈ front, isHashQuote c = false ∧ c ≠ '#')
      (same : Statement.cutHashes rest = rest) : Statement.cutHashes (front ++ rest) = front ++ rest := by
    induction front with
    | nil => exact same
    | cons c front ih =>
      obtain ⟨here, later⟩ := List.forall_mem_cons.mp plain
      rw [List.cons_append, Statement.cutHashes]
      simp only [here.1, here.2, Bool.false_eq_true, if_false, ih later]
  have plain := of_isPlainWord (P := fun c => isHashQuote c = false ∧ c ≠ '#') (by decide)
  generalize dialect : Dialect.mysql = d at neat
  induction neat with
  | nil => rw [Statement.cutHashes]
  | space neat ih => exact skip [' '] (by decide) ih
  | comma neat ih => exact skip [','] (by decide) ih
  | point neat ih => exact skip ['.'] (by decide) ih
  | opening _ neat ih => exact skip ['('] (by decide) ih
  | closing neat ih => exact skip [')'] (by decide) ih
  | word w parted apart neat ih => exact skip _ (fun c member => plain c (w.isPlainWord c member)) ih
  | numeral m parted neat ih => exact skip _ (m.forall_chars plain (by decide)) ih
  | @name n rest x ended neat ih =>
    subst dialect
    have closed := Quoting.close_double (hashQuoting '\x60') x.text.toList rest (Quoting.holds_of_unbroken _ x.unbroken) ended
    have split : x.quoted .mysql ++ rest = '\x60' :: (double '\x60' x.text.toList ++ '\x60' :: rest) := by
      simp [Label.quoted, Rule.nameMark]
    rw [split, Statement.cutHashes, if_pos (by decide)]
    split
    next inside after found =>
      rw [hashQuoting, if_pos rfl] at closed found
      obtain ⟨rfl, rfl⟩ := Prod.mk.inj (Option.some.inj (closed.symm.trans found))
      rw [ih, List.cons_append]
    next missed =>
      rw [hashQuoting, if_pos rfl] at closed missed
      rw [missed] at closed
      cases closed

section Strip
variable {d : Dialect} {cs : List Char} (neat : Neat d 0 cs) (last : ∀ c, cs.getLast? = some c → isBlank c = false)
include neat last

/-- Of a statement in a neat text nothing is taken out, and nothing is cut from its end. -/
theorem plain_of_neat {piece : List Token} (member : piece ∈ split (scan cs)) : plain piece = textOf piece := by
  obtain ⟨tidy, _, brisk⟩ := neat.tokens
  have inside := infix_of_mem_split member
  have part : textOf piece <:+: cs := textOf_scan cs ▸ textOf_infix inside
  have free : ∀ t ∈ piece, t.isComment = false := fun t among => (tidy t (inside.subset among)).1
  have single : ∀ c ∈ textOf piece, isLineEnd c = false := fun c among => (neat.one_line c (part.subset among)).1
  have visible : ∀ c, (textOf piece).getLast? = some c → isBlank c = false := by
    intro c found
    cases closing : piece.getLast? with
    | none =>
      rw [List.getLast?_eq_none_iff.mp closing] at found
      contradiction
    | some t =>
      have among : t ∈ scan cs := inside.subset (List.mem_of_getLast? closing)
      rw [getLast?_textOf closing (text_ne_nil among)] at found
      rcases getLast?_of_mem_split brisk member with whole | ⟨u, same, separator⟩
      · rw [closing] at whole
        apply last
        rw [← textOf_scan cs, getLast?_textOf whole.symm (text_ne_nil among), found]
      · cases Option.some.inj (closing.symm.trans same)
        rw [(tidy t among).2.2 separator] at found
        cases Option.some.inj found
        decide
  rw [plain, uncomment_of_no_comment piece free]
  exact (tidyLines_of_one_line _ single).trans (trimRight_eq_self _ visible)

/-- A neat text that neither begins nor ends with white space has no comments to lose. -/
theorem Neat.strip (first : ∀ c, cs.head? = some c → isBlank c = false) : Statement.strip d cs = .ok cs := by
  obtain ⟨tidy, shallow, _⟩ := neat.tokens
  have flat : ((split (scan cs)).any fun tokens => nestingLimit < nesting tokens) = false := by
    refine List.any_eq_false.mpr fun piece member => ?_
    obtain ⟨m, inside⟩ := shallow.part (infix_of_mem_split member)
    simpa using inside.nesting_le
  have visible : ∀ t, (scan cs).getLast? = some t → t.isSpace = false := by
    intro t found
    have among := List.mem_of_getLast? found
    cases space : t.isSpace with
    | false => rfl
    | true =>
      have end_ := getLast?_textOf found (text_ne_nil among)
      rw [textOf_scan, (tidy t among).2.1 space] at end_
      exact absurd (last ' ' end_) (by decide)
  have whole : (split (scan cs)).flatMap plain = cs := by
    calc (split (scan cs)).flatMap plain
      _ = (split (scan cs)).flatMap textOf := List.flatMap_congr fun piece member => plain_of_neat neat last member
      _ = textOf (split (scan cs)).flatten := (textOf_flatten _).symm
      _ = cs := by rw [flatten_split visible, textOf_scan]
  have trimmed : trim cs = cs := by rw [trim, trimLeft_eq_self cs first, trimRight_eq_self cs last]
  rw [Statement.strip, plainText, flat, whole]
  cases d with
  | mysql => simp [Except.map, neat.cutHashes, trimmed]
  | postgres => simp [Except.map, trimmed]

end Strip
end SqlSchema.Written
