import SqlSchema.Proofs.Reader.Spelling
import SqlSchema.Proofs.Schema.Decode
import SqlSchema.Proofs.Text.Upper

/-! Names, words and numerals that can be written into a statement, and what the rules make of them. -/
namespace SqlSchema.Written
open Text Reader

/-- What can be written between quotes, perhaps nothing. -/
structure Label where
  text : String
  plain : ∀ c ∈ text.toList, c ≠ '\\' ∧ c ≠ '\t' ∧ c ≠ '\n' ∧ c ≠ '\r'
deriving DecidableEq

def Label.quoted (d : Dialect) (n : Label) : List Char :=
  Rule.nameMark d :: (double (Rule.nameMark d) n.text.toList ++ [Rule.nameMark d])

theorem Label.unbroken (n : Label) : Unbroken n.text.toList := by
  intro c member
  obtain ⟨slash, _, feed, turn⟩ := n.plain c member
  exact ⟨slash, by simp [isLineEnd, feed, turn]⟩

/-- A name to be written between quotes. -/
structure Name where
  text : String
  filled : text ≠ ""
  plain : ∀ c ∈ text.toList, c ≠ '\\' ∧ c ≠ '\t' ∧ c ≠ '\n' ∧ c ≠ '\r'
deriving DecidableEq

def Name.quoted (d : Dialect) (n : Name) : List Char :=
  Rule.nameMark d :: (double (Rule.nameMark d) n.text.toList ++ [Rule.nameMark d])

def Name.label (n : Name) : Label := ⟨n.text, n.plain⟩

instance : Coe Name Label := ⟨Name.label⟩

/-- A word without quotes, such as the name of a type. -/
structure Word where
  text : String
  begins : text.toList.head?.any Rule.isWordStart = true
  plain : text.toList.all Rule.isPlainWord = true
deriving DecidableEq

theorem Word.split (w : Word) : ∃ first more, w.text.toList = first :: more ∧ Rule.isWordStart first = true ∧
    ∀ c ∈ more, Rule.isPlainWord c = true := by
  obtain ⟨text, begins, plain⟩ := w
  dsimp only
  cases letters : text.toList with
  | nil => simp [letters] at begins
  | cons first more =>
    rw [letters, List.head?_cons, Option.any_some] at begins
    rw [letters, List.all_cons, Bool.and_eq_true, List.all_eq_true] at plain
    exact ⟨first, more, rfl, begins, plain.2⟩

theorem Word.isPlainWord (w : Word) (c : Char) (member : c ∈ w.text.toList) : Rule.isPlainWord c = true :=
  List.all_eq_true.mp w.plain c member

inductive Sign where
  | none
  | plus
  | minus
deriving DecidableEq

def Sign.chars : Sign → List Char
  | .none => []
  | .plus => ['+']
  | .minus => ['-']

def Sign.apply : Sign → Nat → Int
  | .minus, n => -(n : Int)
  | _, n => n

/-- Digits, perhaps with a sign. -/
structure Figures where
  sign : Sign
  digits : List Char
  filled : digits ≠ []
  decimal : ∀ c ∈ digits, c.isDigit = true
deriving DecidableEq

namespace Figures

def chars (n : Figures) : List Char := n.sign.chars ++ n.digits

def literal (n : Figures) : Tree.Literal := ⟨.integer, String.ofList n.chars⟩

end Figures

/-- A numeral of a number with 64 bits. -/
structure Numeral where
  sign : Sign
  digits : List Char
  filled : digits ≠ []
  decimal : ∀ c ∈ digits, c.isDigit = true
  short : digits.length ≤ Interruption.digitLimit
  fits : fitsWord (sign.apply (digitsValue digits)) = true
deriving DecidableEq

namespace Numeral

def value (n : Numeral) : Int := n.sign.apply (digitsValue n.digits)

def chars (n : Numeral) : List Char := n.sign.chars ++ n.digits

def text (n : Numeral) : String := String.ofList n.chars

def literal (n : Numeral) : Tree.Literal := ⟨.integer, n.text⟩

def decoded (n : Numeral) : Value := .integer n.text n.value

def figures (n : Numeral) : Figures := ⟨n.sign, n.digits, n.filled, n.decimal⟩

instance : Coe Numeral Figures := ⟨figures⟩

end Numeral
end SqlSchema.Written

namespace SqlSchema.Reader.Rule
open Text Written

variable {rest : List Char}

theorem takes_recognised {α : Type} {name : Shape} {recognise : List Char → Option (α × Nat)} {front : List Char}
    {a : α} (seen : Cursor.Seen front) (found : recognise (front ++ rest) = some (a, front.length))
    (ended : rest.head?.any touchesKeyword = false) : (recognised name recognise).Takes (front ++ rest) a rest := by
  intro c here
  rw [← here.front seen] at found
  exact ⟨_, (reads_recognised ..).mpr ⟨_, found, rfl⟩, here.behind seen (.inr ended)⟩

theorem refuses_recognised {α : Type} {name : Shape} {recognise : List Char → Option (α × Nat)} {cs : List Char}
    (visible : cs.head?.any Cursor.isGap = false) (missed : recognise cs = none) :
    (recognised name recognise).Refuses cs := by
  intro c here
  rw [fails_iff]
  intro a after found
  obtain ⟨size, hit, _⟩ := (reads_recognised ..).mp found
  rw [here.visible visible, missed] at hit
  contradiction

/-! Names. -/

theorem unescape_of_no_slash (escapes : Bool) (cs : List Char) (none : ∀ c ∈ cs, c ≠ '\\') :
    unescape escapes cs = cs := by
  induction cs with
  | nil => simp [unescape]
  | cons c rest ih =>
    obtain ⟨here, later⟩ := List.forall_mem_cons.mp none
    rw [unescape]
    · rw [ih later]
    · intro d more same
      exact absurd same here

theorem quiet_nameMark (d : Dialect) :
    Cursor.isGap (nameMark d) = false ∧ touchesKeyword (nameMark d) = false ∧ isWordStart (nameMark d) = false := by
  cases d <;> decide

theorem takes_quoted (q : Quoting) {inside : List Char}
    (quiet : Cursor.isGap q.mark = false ∧ touchesKeyword q.mark = false)
    (closed : q.close (inside ++ q.mark :: rest) = some (inside, rest)) :
    (quoted q).Takes (q.mark :: (inside ++ q.mark :: rest))
      (String.ofList (undouble q.mark (unescape (q.escape == .any) inside))) rest := by
  intro c here
  have whole : q.mark :: (inside ++ q.mark :: rest) = (q.mark :: (inside ++ [q.mark])) ++ rest := by simp
  rw [whole] at here
  have seen : Cursor.Seen (q.mark :: (inside ++ [q.mark])) := by simp [Cursor.Seen, quiet.1]
  have opened : c.skipGap.rest = q.mark :: (inside ++ q.mark :: rest) := by rw [here.front seen, whole]
  have reads := (reads_quoted q c _ _).mpr ⟨_, inside, rest, opened, closed, rfl, rfl⟩
  have size : inside.length + 2 = (q.mark :: (inside ++ [q.mark])).length := by simp
  have last : (q.mark :: (inside ++ [q.mark])).getLast?.any touchesKeyword = false := by
    rw [← List.cons_append, List.getLast?_concat]
    exact quiet.2
  exact ⟨_, size ▸ reads, here.behind seen (.inl last)⟩

theorem refuses_quoted {q : Quoting} {first : Char} (seen : Cursor.isGap first = false) (different : first ≠ q.mark) :
    (quoted q).Refuses (first :: rest) := by
  intro c here
  have place : c.skipGap.rest = first :: rest := here.visible (by simp [seen])
  refine ⟨⟨c.skipGap.position, .shape (.named ("string enclosed in " ++ quoted.inspectMark q.mark))⟩, ?_⟩
  rw [read_quoted, place]
  exact if_neg different

theorem takes_identifier (d : Dialect) (n : Label) (ended : rest.head? ≠ some (nameMark d)) :
    (identifier d).Takes (n.quoted d ++ rest) n.text rest := by
  have quiet := quiet_nameMark d
  have closed := Quoting.close_double ⟨nameMark d, .nothing, true⟩ n.text.toList rest
    (Quoting.holds_of_unbroken _ n.unbroken) ended
  have taken := takes_quoted _ ⟨quiet.1, quiet.2.1⟩ closed
  have slashless : ∀ c ∈ double (nameMark d) n.text.toList, c ≠ '\\' :=
    fun c member => (n.plain c ((mem_double ..).mp member)).1
  rw [unescape_of_no_slash _ _ slashless, undouble_double, String.ofList_toList] at taken
  have split : n.quoted d ++ rest = nameMark d :: (double (nameMark d) n.text.toList ++ nameMark d :: rest) := by
    simp [Label.quoted]
  rw [split]
  exact taken.choice _

/-- Letters in front of which no name is marked are a name themselves. -/
theorem takes_identifier_letters (d : Dialect) {spelled : List Char} (filled : spelled ≠ [])
    (letters : ∀ c ∈ spelled, c.isAlpha = true) (ended : rest.head?.any touchesKeyword = false) :
    (identifier d).Takes (spelled ++ rest) (String.ofList spelled) rest := by
  obtain ⟨first, more, rfl⟩ := List.exists_cons_of_ne_nil filled
  obtain ⟨_, seen, start⟩ := touches_of_letter first (letters first (by simp))
  have marked : first ≠ nameMark d := by
    rintro rfl
    rw [(quiet_nameMark d).2.2] at start
    contradiction
  refine (refuses_quoted (q := ⟨nameMark d, .nothing, true⟩) seen marked).choice (Takes.choice _ ?_)
  refine takes_recognised (show Cursor.Seen (first :: more) by simp [Cursor.Seen, seen]) ?_ ended
  have parts : ∀ c ∈ more, isNamePart c = true := by
    intro c member
    simp [isNamePart, isPlainWord, Char.isAlphanum, letters c (List.mem_cons_of_mem _ member)]
  have stopped : rest.takeWhile isNamePart = [] := by
    cases rest with
    | nil => rfl
    | cons c others =>
      refine List.takeWhile_cons_of_neg fun part => ?_
      rw [List.head?_cons, Option.any_some, (touches_of_isNamePart c part).1] at ended
      contradiction
  rw [List.cons_append, wordOf, if_pos start, List.takeWhile_append_of_pos parts, stopped, List.append_nil]

theorem refuses_identifier {d : Dialect} {first : Char} (seen : Cursor.isGap first = false)
    (different : first ≠ nameMark d) (other : isWordStart first = false) : (identifier d).Refuses (first :: rest) := by
  apply refuses_choice
  intro r member
  rcases List.mem_pair.mp member with rfl | rfl
  · exact refuses_quoted seen different
  · refine refuses_recognised (by simp [seen]) ?_
    simp [wordOf, other]

/-! Words. -/

theorem Word.touches (w : Word) : w.text.toList.head?.any touchesKeyword = true := by
  obtain ⟨first, more, letters, start, _⟩ := w.split
  rw [letters, List.head?_cons, Option.any_some]
  exact (touches_of_isPlainWord first (isPlainWord_of_isWordStart first start)).1

theorem Word.seen (w : Word) : Cursor.Seen w.text.toList := by
  obtain ⟨first, more, letters, start, _⟩ := w.split
  simp [Cursor.Seen, letters, (touches_of_isPlainWord first (isPlainWord_of_isWordStart first start)).2]

theorem takes_word (w : Word) (parted : Parted rest) : word.Takes (w.text.toList ++ rest) w.text rest := by
  obtain ⟨first, more, letters, start, plain⟩ := w.split
  have ended : rest.takeWhile isPlainWord = [] := by
    obtain ⟨c, separator, head⟩ := parted
    obtain ⟨tail, rfl⟩ := List.head?_eq_some_iff.mp head
    have none : ∀ c ∈ separators, Rule.isPlainWord c = false := by decide
    exact List.takeWhile_cons_of_neg (by simp [none c separator])
  refine takes_recognised (Word.seen w) ?_ parted.not_touching
  rw [letters, List.cons_append, wordOf, if_pos start, List.takeWhile_append_of_pos plain, ended, List.append_nil,
    ← letters]
  dsimp only
  rw [String.ofList_toList]

/-- On a word a keyword reads the whole word or nothing. -/
theorem takes_or_refuses_keyword (key : String) (w : Word) (parted : Parted rest)
    (foreign : ∀ c ∈ separators, c ∉ upper key.toList) :
    (keyword key).Takes (w.text.toList ++ rest) () rest ∨ (keyword key).Refuses (w.text.toList ++ rest) := by
  by_cases same : upper w.text.toList = upper key.toList ∧ key.length = w.text.toList.length
  · left
    intro c here
    obtain ⟨alike, size⟩ := same
    have place := here.front (Word.seen w)
    have taken : c.skipGap.rest.take key.length = w.text.toList := by rw [place, size, List.take_left]
    have left : c.skipGap.rest.drop key.length = rest := by rw [place, size, List.drop_left]
    have free := here.free (Word.seen w) (Word.touches w)
    refine ⟨_, (reads_keyword ..).mpr ⟨taken ▸ alike, free, left ▸ parted.not_touching, rfl⟩, ?_⟩
    rw [size]
    exact here.behind (Word.seen w) (.inr parted.not_touching)
  · right
    intro c here
    rw [fails_iff]
    intro u after found
    obtain ⟨alike, _, ended, _⟩ := (reads_keyword ..).mp found
    rw [here.front (Word.seen w)] at alike ended
    apply same
    rcases Nat.lt_trichotomy key.length w.text.toList.length with shorter | size | longer
    · -- The next character is still one of the word.
      rw [List.drop_append_of_le_length (Nat.le_of_lt shorter)] at ended
      obtain ⟨next, others, split⟩ := List.exists_cons_of_length_pos
        (show 0 < (w.text.toList.drop key.length).length by rw [List.length_drop]; omega)
      have inside := w.isPlainWord next (List.mem_of_mem_drop (split ▸ List.mem_cons_self ..))
      rw [split, List.cons_append, List.head?_cons, Option.any_some, (touches_of_isPlainWord next inside).1] at ended
      contradiction
    · rw [size, List.take_left] at alike
      exact ⟨alike, size⟩
    · -- A separator would be part of the keyword.
      obtain ⟨c, separator, head⟩ := parted
      obtain ⟨tail, rfl⟩ := List.head?_eq_some_iff.mp head
      obtain ⟨n, width⟩ := Nat.exists_eq_add_of_lt longer
      have fixed : ∀ c ∈ separators, capitals c = [c] := by decide
      have inside : c ∈ upper (w.text.toList ++ (c :: tail.take n)) := by
        rw [upper_append]
        apply List.mem_append_right
        simp [upper, fixed c separator]
      rw [List.take_append, List.take_of_length_le (Nat.le_of_lt longer),
        show key.length - w.text.toList.length = n + 1 by omega, List.take_succ_cons] at alike
      exact absurd (alike ▸ inside) (foreign c separator)

end SqlSchema.Reader.Rule
