import Mathlib.Data.List.TakeWhile
import SqlSchema.Proofs.Reader.Reading
import SqlSchema.Proofs.Text.Upper
import SqlSchema.Reader.Word

/-! Where keywords are read. A keyword in either case is read unless a word character touches it, and what counts as
touching is more than what words are made of. -/
namespace SqlSchema.Reader
open Text Rule

/-- Characters that touch a keyword, but end a plain word. -/
def straddling : List Char := ['$', 'ı', 'ſ']

theorem mem_straddling_iff (c : Char) : c ∈ straddling ↔ touchesKeyword c = true ∧ isPlainWord c = false := by
  constructor
  · intro member
    simp only [straddling, List.mem_cons, List.not_mem_nil, or_false] at member
    rcases member with rfl | rfl | rfl
    · decide
    · rw [touchesKeyword, capitals_dotless]
      decide
    · rw [touchesKeyword, capitals_long]
      decide
  · intro holds
    obtain ⟨touches, other⟩ := holds
    by_cases ascii : c.toNat < 128
    · exact forall_ascii
        (P := fun c => touchesKeyword c = true → isPlainWord c = false → c ∈ straddling) (by decide)
        c ascii touches other
    · unfold touchesKeyword at touches
      split at touches
      next capital single =>
        have inside : capital.toNat < 128 := by
          simp only [Bool.or_eq_true, beq_iff_eq, Char.isDigit, Bool.and_eq_true, decide_eq_true_eq] at touches
          rcases touches with ((high | ⟨_, bound⟩) | rfl) | rfl
          · exact Nat.lt_of_le_of_lt (toNat_le_of_isUpper high) (by decide)
          · exact Nat.lt_of_le_of_lt bound (by decide)
          · decide
          · decide
        rcases foreign_of_capital c capital (Nat.not_lt.mp ascii) single inside with rfl | rfl <;> decide
      next => contradiction

theorem touches_of_letter (c : Char) (letter : c.isAlpha = true) :
    touchesKeyword c = true ∧ Cursor.isGap c = false ∧ isWordStart c = true :=
  forall_ascii
    (P := fun c => c.isAlpha = true → touchesKeyword c = true ∧ Cursor.isGap c = false ∧ isWordStart c = true)
    (by decide) c (ascii_of_isAlpha c letter) letter

theorem touches_of_gap (c : Char) (gap : Cursor.isGap c = true) : touchesKeyword c = false := by
  simp only [Cursor.isGap, Bool.or_eq_true, beq_iff_eq] at gap
  rcases gap with ((rfl | rfl) | rfl) | rfl <;> decide

namespace Cursor

/-- No keyword that begins here is torn off the end of a word. -/
def Clear (c : Cursor) : Prop :=
  c.previous.any touchesKeyword = false ∨ c.rest.head?.any touchesKeyword = false

theorem clear_start (cs : List Char) : (start cs).Clear := .inl rfl

theorem skipGap_of_append (c : Cursor) (gap more : List Char) (split : c.rest = gap ++ more)
    (blank : ∀ g ∈ gap, isGap g = true) (visible : more.head?.any isGap = false) :
    c.skipGap = c.advance gap.length := by
  have none : more.takeWhile isGap = [] := by
    cases more with
    | nil => rfl
    | cons first rest => exact List.takeWhile_cons_of_neg (by simpa using visible)
  rw [skipGap, split, List.takeWhile_append_of_pos blank, none, List.append_nil]

theorem clear_skipGap (c : Cursor) (clear : c.Clear) : c.skipGap.Clear := by
  cases found : (c.rest.takeWhile isGap).getLast? with
  | none =>
    rw [skipGap, List.getLast?_eq_none_iff.mp found]
    exact c.advance_zero.symm ▸ clear
  | some last =>
    have blank := List.mem_takeWhile_imp (List.mem_of_getLast? found)
    refine .inl ?_
    have taken : c.rest.take (c.rest.takeWhile isGap).length = c.rest.takeWhile isGap :=
      (List.prefix_iff_eq_take.mp (List.takeWhile_prefix _)).symm
    simp [skipGap, advance, taken, found, touches_of_gap last blank]

/-- No more of the text is left out than was passed. -/
def Fits (c : Cursor) : Prop := c.size ≤ c.position + c.rest.length

theorem fits_start (cs : List Char) : (start cs).Fits := Nat.le_add_left ..

theorem fits_advance (c : Cursor) (n : Nat) (fits : c.Fits) : (c.advance n).Fits := by
  simp only [Fits, advance, List.length_drop] at fits ⊢
  omega

theorem fits_skipGap (c : Cursor) (fits : c.Fits) : c.skipGap.Fits := c.fits_advance _ fits

end Cursor

/-- A word of capital letters, such as every keyword is made of. -/
def Capital (word : String) : Prop := word.toList ≠ [] ∧ word.toList.all Char.isUpper = true

instance (word : String) : Decidable (Capital word) := inferInstanceAs (Decidable (_ ∧ _))

theorem Capital.isUpper {word : String} (capital : Capital word) : ∀ c ∈ word.toList, c.isUpper = true :=
  List.all_eq_true.mp capital.2

theorem Capital.isAlpha {word : String} (capital : Capital word) (c : Char) (member : c ∈ word.toList) :
    c.isAlpha = true := by
  exact (isAlpha_iff c).mpr (.inl (capital.isUpper c member))

theorem Capital.length_pos {word : String} (capital : Capital word) : 0 < word.length := by
  rw [← String.length_toList]
  exact List.length_pos_iff.mpr capital.1

/-- The text begins, behind a gap, with the word in either case. -/
def Opens (gap : List Char) (word : String) (cs rest : List Char) : Prop :=
  (∀ g ∈ gap, Cursor.isGap g = true) ∧
    ∃ spelled, cs = gap ++ (spelled ++ rest) ∧ spelled.map Char.toLower = word.toList.map Char.toLower

theorem letters_of_alike (word : String) (capital : Capital word) (spelled : List Char)
    (alike : spelled.map Char.toLower = word.toList.map Char.toLower) : ∀ c ∈ spelled, c.isAlpha = true := by
  intro c member
  obtain ⟨letter, inside, same⟩ := List.mem_map.mp (alike ▸ List.mem_map_of_mem member)
  exact isAlpha_of_toLower c letter same.symm (capital.isAlpha letter inside)

theorem upper_of_alike (word : String) (capital : Capital word) (spelled : List Char)
    (alike : spelled.map Char.toLower = word.toList.map Char.toLower) : upper spelled = upper word.toList := by
  have small : ∀ c ∈ word.toList.map Char.toLower, c.toNat < 128 := by
    intro c member
    obtain ⟨letter, inside, rfl⟩ := List.mem_map.mp member
    have ascii := ascii_of_isAlpha letter (capital.isAlpha letter inside)
    exact forall_ascii (P := fun c => c.toLower.toNat < 128) (by decide) letter ascii
  rw [upper_of_ascii spelled (alike ▸ small), upper_of_ascii word.toList small, alike]

namespace Opens

variable {gap : List Char} {word : String} {cs rest : List Char}

theorem head (opened : Opens gap word cs rest) (capital : Capital word) :
    ∃ first more, cs = gap ++ first :: more ∧ first.isAlpha = true := by
  obtain ⟨_, spelled, rfl, alike⟩ := opened
  cases spelled with
  | nil =>
    rw [List.map_nil, eq_comm, List.map_eq_nil_iff] at alike
    exact absurd alike capital.1
  | cons first more =>
    exact ⟨first, more ++ rest, rfl, letters_of_alike word capital _ alike first (List.mem_cons_self ..)⟩

theorem skipGap (c : Cursor) (opened : Opens gap word c.rest rest) (capital : Capital word) :
    c.skipGap = c.advance gap.length := by
  obtain ⟨first, more, split, letter⟩ := opened.head capital
  exact c.skipGap_of_append gap _ split opened.1 (touches_of_letter first letter).2.1

theorem not_touching (c : Cursor) (opened : Opens gap word c.rest rest) (capital : Capital word) (clear : c.Clear) :
    c.skipGap.previous.any touchesKeyword = false := by
  rcases c.clear_skipGap clear with alone | apart
  · exact alone
  · obtain ⟨first, more, split, letter⟩ := opened.head capital
    rw [opened.skipGap c capital, Cursor.advance, split, List.drop_left] at apart
    rw [List.head?_cons, Option.any_some, (touches_of_letter first letter).1] at apart
    contradiction

theorem behind (c : Cursor) (opened : Opens gap word c.rest rest) (capital : Capital word) :
    upper (c.skipGap.rest.take word.length) = upper word.toList ∧ c.skipGap.rest.drop word.length = rest := by
  have start := opened.skipGap c capital
  obtain ⟨_, spelled, split, alike⟩ := opened
  have size : word.length = spelled.length := by
    rw [← String.length_toList, ← List.length_map (f := Char.toLower), ← alike, List.length_map]
  rw [start, Cursor.advance, split, List.drop_left, size, List.take_left, List.drop_left]
  exact ⟨upper_of_alike word capital spelled alike, rfl⟩

end Opens

/-- The text begins with a gap and the word behind it. -/
def Follows (word : String) (cs rest : List Char) : Prop := ∃ gap ≠ [], Opens gap word cs rest

theorem Opens.follows {gap cs rest : List Char} {word : String} (opened : Opens gap word cs rest)
    (capital : Capital word) (ended : cs.head?.any touchesKeyword = false) : Follows word cs rest := by
  refine ⟨gap, ?_, opened⟩
  intro same
  subst same
  obtain ⟨first, more, rfl, letter⟩ := opened.head capital
  rw [List.nil_append, List.head?_cons, Option.any_some, (touches_of_letter first letter).1] at ended
  contradiction

theorem Follows.ended {word : String} {cs rest : List Char} (follows : Follows word cs rest) :
    cs.head?.any touchesKeyword = false := by
  obtain ⟨gap, filled, blank, spelled, rfl, _⟩ := follows
  obtain ⟨first, more, rfl⟩ := List.exists_cons_of_ne_nil filled
  exact touches_of_gap first (blank first (List.mem_cons_self ..))

namespace Rule

/-! Words. -/

theorem isPlainWord_of_isWordStart (c : Char) (start : isWordStart c = true) : isPlainWord c = true := by
  simp only [isWordStart, isPlainWord, Char.isAlphanum, Bool.or_eq_true] at start ⊢
  rcases start with letter | line
  · exact .inl (.inl letter)
  · exact .inr line

theorem ascii_of_isPlainWord (c : Char) (plain : isPlainWord c = true) : c.toNat < 128 := by
  simp only [isPlainWord, Char.isAlphanum, Bool.or_eq_true, beq_iff_eq] at plain
  rcases plain with (letter | digit) | rfl
  · exact ascii_of_isAlpha c letter
  · simp only [Char.isDigit, Bool.and_eq_true, decide_eq_true_eq] at digit
    exact Nat.lt_of_le_of_lt digit.2 (by decide)
  · decide

theorem touches_of_isPlainWord (c : Char) (plain : isPlainWord c = true) :
    touchesKeyword c = true ∧ Cursor.isGap c = false :=
  forall_ascii (P := fun c => isPlainWord c = true → touchesKeyword c = true ∧ Cursor.isGap c = false)
    (by decide) c (ascii_of_isPlainWord c plain) plain

theorem touches_of_isNamePart (c : Char) (part : isNamePart c = true) :
    touchesKeyword c = true ∧ Cursor.isGap c = false := by
  simp only [isNamePart, Bool.or_eq_true, beq_iff_eq] at part
  rcases part with plain | rfl
  · exact touches_of_isPlainWord c plain
  · decide

/-! Keywords. -/

variable {gap : List Char} {word other : String} {rest : List Char}

theorem read_keyword (word : String) (c : Cursor) :
    (keyword word).read c =
      if upper (c.skipGap.rest.take word.length) = upper word.toList then
        if c.skipGap.previous.any touchesKeyword then fail (c.skipGap.position - 1) (.keywordStart word)
        else if (c.skipGap.rest.drop word.length).head?.any touchesKeyword then
          fail (c.skipGap.position + word.length) (.keywordEnd word)
        else .ok ((), c.skipGap.advance word.length)
      else fail c.skipGap.position (.keyword word) := rfl

theorem reads_keyword (word : String) (c after : Cursor) (u : Unit) :
    (keyword word).Reads c u after ↔
      upper (c.skipGap.rest.take word.length) = upper word.toList ∧ c.skipGap.previous.any touchesKeyword = false ∧
        (c.skipGap.rest.drop word.length).head?.any touchesKeyword = false ∧ c.skipGap.advance word.length = after := by
  rw [Reads, read_keyword]
  split
  next same =>
    split
    next preceded => simp [fail, preceded]
    next free =>
      split
      next followed =>
        rw [Bool.not_eq_true] at free
        simp only [fail, reduceCtorEq, followed, false_and, and_false, Bool.true_eq_false]
      next ended =>
        rw [Bool.not_eq_true] at free ended
        simp only [same, free, ended, true_and, Except.ok.injEq, Prod.mk.injEq]
  next different => simp [fail, different]

/-- A keyword is read where no word character touches it. -/
theorem reads_keyword_of_opens (c : Cursor) (clear : c.Clear) (capital : Capital word)
    (opened : Opens gap word c.rest rest) (ended : rest.head?.any touchesKeyword = false) :
    ∃ after, (keyword word).Reads c () after ∧ after.rest = rest ∧ after.Clear := by
  have free := opened.not_touching c capital clear
  obtain ⟨same, behind⟩ := opened.behind c capital
  rw [← behind] at ended
  exact ⟨c.skipGap.advance word.length, (reads_keyword ..).mpr ⟨same, free, ended, rfl⟩, behind, .inr ended⟩

theorem fails_keyword_of_touching (c : Cursor) (capital : Capital word) (opened : Opens gap word c.rest rest)
    (touching : rest.head?.any touchesKeyword = true) : (keyword word).Fails c := by
  rw [fails_iff]
  intro u after found
  obtain ⟨_, _, ended, _⟩ := (reads_keyword ..).mp found
  rw [(opened.behind c capital).2, touching] at ended
  contradiction

theorem fails_keyword_of_other (c : Cursor) (capital : Capital word) (found : Capital other)
    (opened : Opens gap other c.rest rest)
    (different : word.toList.head? ≠ other.toList.head?) : (keyword word).Fails c := by
  rw [fails_iff]
  intro u after reads
  have same := ((reads_keyword ..).mp reads).1
  have there := (opened.behind c found).1
  have head := congrArg List.head? (same.trans (upper_of_isUpper word.toList capital.isUpper))
  have seen := congrArg List.head? (there.trans (upper_of_isUpper other.toList found.isUpper))
  rw [head?_upper_take _ _ capital.length_pos] at head
  rw [head?_upper_take _ _ found.length_pos] at seen
  exact different (head.symm.trans seen)

/-- What a keyword has read spells it, unless the text ends there. -/
theorem opens_of_reads_keyword (c after : Cursor) (u : Unit) (capital : Capital word)
    (usual : 'I' ∉ word.toList ∧ 'S' ∉ word.toList) (found : (keyword word).Reads c u after) (more : after.rest ≠ []) :
    ∃ gap, Opens gap word c.rest after.rest ∧ after.Clear ∧ after.rest.head?.any touchesKeyword = false := by
  obtain ⟨same, _, ended, rfl⟩ := (reads_keyword ..).mp found
  change c.skipGap.rest.drop word.length ≠ [] at more
  have size : (c.skipGap.rest.take word.length).length = word.toList.length := by
    have longer := List.length_pos_iff.mpr more
    rw [List.length_drop] at longer
    rw [List.length_take, String.length_toList]
    omega
  have inside : ∀ l ∈ word.toList, l.toNat < 128 ∧ l ≠ 'I' ∧ l ≠ 'S' := by
    intro l member
    refine ⟨ascii_of_isAlpha l (capital.isAlpha l member), ?_, ?_⟩
    · intro same
      subst same
      exact usual.1 member
    · intro same
      subst same
      exact usual.2 member
  have alike := map_toLower_of_upper _ _ (same.trans (upper_of_isUpper word.toList capital.isUpper)) size inside
  have whole : c.rest = c.rest.takeWhile Cursor.isGap ++
      (c.skipGap.rest.take word.length ++ c.skipGap.rest.drop word.length) := by
    rw [List.take_append_drop, Cursor.skipGap_rest, List.takeWhile_append_dropWhile]
  exact ⟨_, ⟨fun g member => List.mem_takeWhile_imp member, _, whole, alike⟩, .inr ended, ended⟩

theorem fits_of_reads_keyword (c after : Cursor) (u : Unit) (found : (keyword word).Reads c u after) (fits : c.Fits) :
    after.Fits := by
  obtain ⟨_, _, _, rfl⟩ := (reads_keyword ..).mp found
  exact Cursor.fits_advance _ _ (c.fits_skipGap fits)

theorem reads_endOfText_of_fits (c : Cursor) (fits : c.Fits) (empty : c.rest = []) :
    endOfText.Reads c () c.skipGap := by
  have inside := c.fits_skipGap fits
  rw [Cursor.Fits, Cursor.skipGap_rest, empty] at inside
  exact (reads_endOfText ..).mpr ⟨inside, rfl⟩

theorem ne_nil_of_reads_keyword (c after : Cursor) (u : Unit) (found : (keyword word).Reads c u after)
    (more : after.rest ≠ []) : c.rest ≠ [] := by
  obtain ⟨_, _, _, rfl⟩ := (reads_keyword ..).mp found
  intro empty
  exact more (by simp [Cursor.advance, Cursor.skipGap, empty])

/-! Marks, quoted text and text that is recognised. -/

theorem read_mark (sign : Char) (c : Cursor) :
    (mark sign).read c = match c.skipGap.rest with
      | d :: _ => if d = sign then .ok ((), c.skipGap.advance 1)
        else fail c.skipGap.position (.shape (.mark (String.singleton sign)))
      | [] => fail c.skipGap.size (.shape (.mark (String.singleton sign))) := rfl

theorem reads_mark (sign : Char) (c after : Cursor) (u : Unit) :
    (mark sign).Reads c u after ↔ ∃ rest, c.skipGap.rest = sign :: rest ∧ c.skipGap.advance 1 = after := by
  rw [Reads, read_mark]
  cases c.skipGap.rest with
  | nil => simp [fail]
  | cons d rest =>
    dsimp only
    split
    next same => simp [same]
    next other => simp [fail, other]

theorem read_quoted (q : Quoting) (c : Cursor) :
    (quoted q).read c = match c.skipGap.rest with
      | d :: rest =>
        if d = q.mark then
          match q.close rest with
          | some (inside, _) =>
            .ok (String.ofList (undouble q.mark (unescape (q.escape == .any) inside)),
              c.skipGap.advance (inside.length + 2))
          | none =>
            fail c.skipGap.position (.shape (.named ("string enclosed in " ++ quoted.inspectMark q.mark)))
        else fail c.skipGap.position (.shape (.named ("string enclosed in " ++ quoted.inspectMark q.mark)))
      | [] => fail c.skipGap.size (.shape (.named ("string enclosed in " ++ quoted.inspectMark q.mark))) := rfl

theorem reads_quoted (q : Quoting) (c after : Cursor) (text : String) :
    (quoted q).Reads c text after ↔
      ∃ rest inside behind, c.skipGap.rest = q.mark :: rest ∧ q.close rest = some (inside, behind) ∧
        String.ofList (undouble q.mark (unescape (q.escape == .any) inside)) = text ∧
        c.skipGap.advance (inside.length + 2) = after := by
  rw [Reads, read_quoted]
  cases c.skipGap.rest with
  | nil => simp [fail]
  | cons d rest =>
    dsimp only
    split
    next same =>
      subst same
      cases closed : q.close rest with
      | none => simp [fail, closed]
      | some found =>
        obtain ⟨inside, behind⟩ := found
        simp [closed]
    next other => simp [fail, other]

theorem read_recognised {α : Type} (name : Shape) (recognise : List Char → Option (α × Nat)) (c : Cursor) :
    (recognised name recognise).read c = match recognise c.skipGap.rest with
      | some (meaning, size) => .ok (meaning, c.skipGap.advance size)
      | none => fail c.skipGap.position (.shape name) := rfl

theorem reads_recognised {α : Type} (name : Shape) (recognise : List Char → Option (α × Nat)) (c after : Cursor)
    (a : α) :
    (recognised name recognise).Reads c a after ↔
      ∃ size, recognise c.skipGap.rest = some (a, size) ∧ c.skipGap.advance size = after := by
  rw [Reads, read_recognised]
  cases recognise c.skipGap.rest with
  | none => simp [fail]
  | some found =>
    obtain ⟨meaning, size⟩ := found
    simp [and_assoc]

theorem reads_wordOf (name : Shape) (part : Char → Bool) (c after : Cursor) (kind : String) :
    (recognised name (wordOf part)).Reads c kind after ↔
      ∃ first more, c.skipGap.rest = first :: more ∧ isWordStart first = true ∧
        kind = String.ofList (first :: more.takeWhile part) ∧
        after = c.skipGap.advance (first :: more.takeWhile part).length := by
  rw [reads_recognised]
  cases c.skipGap.rest with
  | nil => simp [wordOf]
  | cons first more =>
    simp only [wordOf, List.cons.injEq]
    constructor
    · intro holds
      obtain ⟨size, found, rfl⟩ := holds
      split at found
      next start =>
        cases found
        exact ⟨first, more, ⟨rfl, rfl⟩, start, rfl, rfl⟩
      next => contradiction
    · intro holds
      obtain ⟨_, _, ⟨rfl, rfl⟩, start, rfl, rfl⟩ := holds
      exact ⟨_, if_pos start, rfl⟩

theorem reads_word (c after : Cursor) (kind : String) :
    Rule.word.Reads c kind after ↔
      ∃ first more, c.skipGap.rest = first :: more ∧ isWordStart first = true ∧
        kind = String.ofList (first :: more.takeWhile isPlainWord) ∧
        after = c.skipGap.advance (first :: more.takeWhile isPlainWord).length :=
  reads_wordOf ..

end Rule
end SqlSchema.Reader
