import SqlSchema.Proofs.Text.Enclosed
import SqlSchema.Proofs.Text.Trim
import SqlSchema.Proofs.Tree
import SqlSchema.Proofs.Written.Lexeme

/-! How a text begins: with whole words in either case and with names between the marks of the dialect, whatever
follows them. A rule that takes these words, or refuses them, does so wherever they stand. -/
namespace SqlSchema
open Text

/-- A text whose marks are doubled is one with tabs filled up in it, too. -/
theorem Text.Filled.double {mark : Char} (tab : mark ≠ '\t') (space : mark ≠ ' ') {cs es : List Char}
    (filled : Filled (Text.double mark cs) es) : ∃ ds, es = Text.double mark ds ∧ Filled cs ds := by
  induction cs generalizing es with
  | nil =>
    cases filled
    exact ⟨[], rfl, .nil⟩
  | cons c cs ih =>
    rw [← List.singleton_append, double_append] at filled
    obtain ⟨first, second, rfl, here, later⟩ := filled.append_left
    obtain ⟨ds, rfl, rest⟩ := ih later
    by_cases same : c = mark
    · subst same
      have none : '\t' ∉ Text.double c [c] := by simp [mem_double, Ne.symm tab]
      rw [here.eq_of_no_tab none, ← double_append]
      exact ⟨[c] ++ ds, rfl, .char c rest⟩
    · have single : Text.double mark [c] = [c] := double_of_not_mem (by simpa using Ne.symm same)
      rw [single] at here
      cases here with
      | char _ last =>
        cases last
        exact ⟨[c] ++ ds, by rw [double_append, single], .char c rest⟩
      | tab n last =>
        cases last
        refine ⟨List.replicate (n + 1) ' ' ++ ds, ?_, .tab n rest⟩
        rw [double_append, List.append_nil, double_of_not_mem fun member => space (List.mem_replicate.mp member).2]

namespace Reader
open Rule

/-- A word, or a name between marks. -/
inductive Sign where
  | word (text : String)
  | name
deriving DecidableEq

/-- Words are told by their capital letters. -/
def Sign.Plain : Sign → Prop
  | .word text => Capital text
  | .name => True

instance : DecidablePred Sign.Plain
  | .word text => inferInstanceAs (Decidable (Capital text))
  | .name => .isTrue trivial

/-- The text begins with the signs, behind gaps. No word runs on, and no line ends within a name. -/
inductive Begins (d : Dialect) : List Sign → List Char → List Char → Prop
  | nil (rest : List Char) : Begins d [] rest rest
  | word {gap cs more rest : List Char} {signs : List Sign} (text : String) (opened : Opens gap text cs more)
    (ended : more.head?.any touchesKeyword = false) (later : Begins d signs more rest) :
    Begins d (.word text :: signs) cs rest
  | name {gap more rest : List Char} {signs : List Sign} (text : List Char) (blank : ∀ c ∈ gap, Cursor.isGap c = true)
    (lines : ∀ c ∈ text, isLineEnd c = false) (ended : more.head? ≠ some (nameMark d)) (later : Begins d signs more rest) :
    Begins d (.name :: signs) (gap ++ nameMark d :: (double (nameMark d) text ++ nameMark d :: more)) rest

namespace Begins
variable {d : Dialect} {signs : List Sign} {cs ds rest : List Char}

/-- Tabs that are filled up make no difference. -/
theorem filled (begun : Begins d signs cs rest) (plain : ∀ sign ∈ signs, sign.Plain)
    (filled : Filled cs ds) : ∃ left, Begins d signs ds left := by
  have blanks {gap wide : List Char} (filled : Filled gap wide) (blank : ∀ c ∈ gap, Cursor.isGap c = true) :
      ∀ c ∈ wide, Cursor.isGap c = true := filled.forall_mem (by decide) blank
  induction begun generalizing ds with
  | nil => exact ⟨ds, .nil ds⟩
  | @word gap _ more _ _ text opened ended later ih =>
    obtain ⟨blank, spelled, rfl, alike⟩ := opened
    obtain ⟨wide, _, rfl, space, others⟩ := filled.append_left
    obtain ⟨word, behind, rfl, same, left⟩ := others.append_left
    have letters := letters_of_alike text (plain _ (List.mem_cons_self ..)) spelled alike
    have none : '\t' ∉ spelled := fun member => absurd (letters _ member) (by decide)
    obtain rfl := same.eq_of_no_tab none
    obtain ⟨rest, begun⟩ := ih (fun sign member => plain sign (List.mem_cons_of_mem _ member)) left
    refine ⟨rest, .word text ⟨blanks space blank, word, rfl, alike⟩ ?_ begun⟩
    rcases left.head? with first | first
    · rwa [first]
    · rw [first]
      decide
  | @name gap more _ _ text blank lines ended later ih =>
    have quiet := quiet_nameMark d
    have tab : nameMark d ≠ '\t' := fun same => absurd quiet.1 (by rw [same]; decide)
    have space : nameMark d ≠ ' ' := fun same => absurd quiet.1 (by rw [same]; decide)
    obtain ⟨wide, _, rfl, front, others⟩ := filled.append_left
    obtain ⟨_, rfl, marked⟩ := others.cons_left tab
    obtain ⟨_, _, rfl, inside, closing⟩ := marked.append_left
    obtain ⟨left, rfl, last⟩ := closing.cons_left tab
    obtain ⟨name, rfl, same⟩ := inside.double tab space
    obtain ⟨rest, begun⟩ := ih (fun sign member => plain sign (List.mem_cons_of_mem _ member)) last
    refine ⟨rest, .name name (blanks front blank) (same.forall_mem (by decide) lines) ?_ begun⟩
    rcases last.head? with first | first
    · rwa [first]
    · rw [first]
      exact fun equal => space (Option.some.inj equal).symm

end Begins

/-! What is cut off at the end of a text. -/

/-- White space and semicolons. -/
def Loose (tail : List Char) : Prop := ∀ c ∈ tail, isBlank c = true ∨ c = ';'

theorem Loose.not_mem {tail : List Char} (loose : Loose tail) {c : Char} (visible : isBlank c = false)
    (other : c ≠ ';') : c ∉ tail := by
  intro member
  rcases loose c member with blank | same
  · rw [visible] at blank
    contradiction
  · exact other same

theorem Opens.cut {gap cs more tail : List Char} {word : String} (opened : Opens gap word (cs ++ tail) more)
    (capital : Capital word) (loose : Loose tail) : ∃ left, Opens gap word cs left ∧ more = left ++ tail := by
  obtain ⟨blank, spelled, whole, alike⟩ := opened
  have letters := letters_of_alike word capital spelled alike
  rw [← List.append_assoc] at whole
  obtain ⟨left, rfl, rest⟩ := split_of_last whole fun l last => by
    rw [List.getLast?_append, Option.mem_def, Option.or_eq_some_iff] at last
    rcases last with inside | ⟨none, _⟩
    · have letter := letters l (List.mem_of_getLast? inside)
      refine loose.not_mem (Tree.not_isBlank_of_isAlpha l letter) ?_
      rintro rfl
      exact absurd letter (by decide)
    · rw [List.getLast?_eq_none_iff.mp none, List.map_nil, eq_comm, List.map_eq_nil_iff] at alike
      exact absurd alike capital.1
  exact ⟨left, ⟨blank, spelled, List.append_assoc .., alike⟩, rest⟩

/-- What is cut off belongs to no sign. -/
theorem Begins.cut {d : Dialect} {signs : List Sign} {cs rest tail : List Char}
    (begun : Begins d signs (cs ++ tail) rest) (plain : ∀ sign ∈ signs, sign.Plain)
    (loose : Loose tail) : ∃ left, Begins d signs cs left := by
  have first {left : List Char} {c : Char} (begins : left.head? = some c) : (left ++ tail).head? = some c := by
    rw [List.head?_append, begins, Option.some_or]
  generalize whole : cs ++ tail = text at begun
  induction begun generalizing cs with
  | nil => exact ⟨cs, .nil cs⟩
  | word text opened ended later ih =>
    subst whole
    obtain ⟨left, here, rfl⟩ := opened.cut (plain _ (List.mem_cons_self ..)) loose
    obtain ⟨rest, begun⟩ := ih (fun sign member => plain sign (List.mem_cons_of_mem _ member)) rfl
    refine ⟨rest, .word text here ?_ begun⟩
    cases begins : left.head? with
    | none => rfl
    | some c => rwa [first begins] at ended
  | @name gap more _ _ text blank lines ended later ih =>
    have quiet : ∀ d : Dialect, isBlank (nameMark d) = false ∧ nameMark d ≠ ';' := by
      intro d
      cases d <;> decide
    have mark := loose.not_mem (quiet d).1 (quiet d).2
    have split : cs ++ tail = (gap ++ nameMark d :: (double (nameMark d) text ++ [nameMark d])) ++ more := by
      rw [whole]
      simp
    obtain ⟨left, rfl, rfl⟩ := split_of_last split fun l last => by
      rw [← List.cons_append, ← List.append_assoc, List.getLast?_concat] at last
      exact Option.some.inj last ▸ mark
    obtain ⟨rest, begun⟩ := ih (fun sign member => plain sign (List.mem_cons_of_mem _ member)) rfl
    have marked : left.head? ≠ some (nameMark d) := fun begins => ended (first begins)
    have named := Begins.name text blank lines marked begun
    exact ⟨rest, by simpa using named⟩

/-! What takes the signs, and what refuses them. -/

namespace Opens
variable {gap cs rest : List Char} {word : String}

/-- The word stands at every place where the text does. -/
theorem here (opened : Opens gap word cs rest) (capital : Capital word) {c : Cursor} (place : c.At cs) :
    Opens (c.rest.takeWhile Cursor.isGap) word c.rest rest := by
  obtain ⟨blank, spelled, rfl, alike⟩ := opened
  have letters := letters_of_alike word capital spelled alike
  have left : (gap ++ (spelled ++ rest)).dropWhile Cursor.isGap = spelled ++ rest := by
    rw [List.dropWhile_append_of_pos blank]
    cases spelled with
    | nil =>
      rw [List.map_nil, eq_comm, List.map_eq_nil_iff] at alike
      exact absurd alike capital.1
    | cons first more =>
      exact List.dropWhile_cons_of_neg (by simp [(touches_of_letter first (letters first (by simp))).2.1])
  refine ⟨fun g member => List.mem_takeWhile_imp member, spelled, ?_, alike⟩
  rw [← left, ← place.rest, List.takeWhile_append_dropWhile]

end Opens

theorem Begins.split {d : Dialect} (front : List Sign) {more : List Sign} {cs rest : List Char}
    (begun : Begins d (front ++ more) cs rest) : ∃ mid, Begins d front cs mid ∧ Begins d more mid rest := by
  generalize whole : front ++ more = signs at begun
  induction begun generalizing front with
  | nil rest =>
    obtain ⟨rfl, rfl⟩ := List.append_eq_nil_iff.mp whole
    exact ⟨rest, .nil rest, .nil rest⟩
  | word text opened ended later ih =>
    cases front with
    | nil =>
      obtain rfl : more = _ := whole
      exact ⟨_, .nil _, .word text opened ended later⟩
    | cons sign front =>
      obtain ⟨rfl, same⟩ := List.cons.inj whole
      obtain ⟨mid, first, second⟩ := ih front same
      exact ⟨mid, .word text opened ended first, second⟩
  | name text blank lines ended later ih =>
    cases front with
    | nil =>
      obtain rfl : more = _ := whole
      exact ⟨_, .nil _, .name text blank lines ended later⟩
    | cons sign front =>
      obtain ⟨rfl, same⟩ := List.cons.inj whole
      obtain ⟨mid, first, second⟩ := ih front same
      exact ⟨mid, .name text blank lines ended first, second⟩

/-- The sign is not the word. -/
def Sign.Other (word : String) : Sign → Prop
  | .word text => Capital text ∧ word.toList.head? ≠ text.toList.head?
  | .name => True

instance (word : String) : DecidablePred (Sign.Other word)
  | .word text => inferInstanceAs (Decidable (Capital text ∧ word.toList.head? ≠ text.toList.head?))
  | .name => .isTrue trivial

namespace Rule
variable {d : Dialect} {word : String} {cs rest : List Char}

theorem takes_keyword_begun (begun : Begins d [.word word] cs rest) (capital : Capital word) :
    (keyword word).Takes cs () rest := by
  cases begun with
  | word _ opened ended later =>
    cases later
    intro c place
    have there := opened.here capital place
    obtain ⟨after, reads, left, clear⟩ := reads_keyword_of_opens c place.clear capital there ended
    refine ⟨after, reads, ⟨congrArg _ left, clear, fits_of_reads_keyword c after () reads place.fits⟩, ?_⟩
    obtain ⟨_, spelled, whole, _⟩ := there
    rw [left, whole]
    exact ⟨_, List.append_assoc ..⟩

/-- Where another sign stands there is no keyword. -/
theorem refuses_keyword_begun {sign : Sign} {signs : List Sign} (begun : Begins d (sign :: signs) cs rest)
    (capital : Capital word) (other : sign.Other word) : (keyword word).Refuses cs := by
  cases begun with
  | word text opened ended later =>
    exact fun c place => fails_keyword_of_other c capital other.1 (opened.here other.1 place) other.2
  | name text blank lines ended later =>
    refine refuses_blank _ blank (refuses_keyword_of_char (quiet_nameMark d).1 fun prefixed => ?_)
    obtain ⟨first, more, letters⟩ := List.exists_cons_of_ne_nil capital.1
    have single : upper ([nameMark d].take word.length) = [nameMark d] := by
      have one : [nameMark d].take word.length = [nameMark d] := List.take_of_length_le capital.length_pos
      rw [one]
      cases d <;> decide
    rw [single, upper_of_isUpper _ capital.isUpper, letters, List.cons_prefix_cons] at prefixed
    have upper := capital.isUpper first (by simp [letters])
    rw [← prefixed.1] at upper
    cases d <;> exact absurd upper (by decide)

/-- Where a word stands there is no mark. -/
theorem refuses_mark_begun {signs : List Sign} {sign : Char} (begun : Begins d (.word word :: signs) cs rest)
    (capital : Capital word) (other : sign.isAlpha = false) : (mark sign).Refuses cs := by
  cases begun with
  | word _ opened ended later =>
    obtain ⟨first, more, rfl, letter⟩ := opened.head capital
    refine refuses_blank _ opened.1 (refuses_mark (touches_of_letter first letter).2.1 ?_)
    rintro rfl
    rw [letter] at other
    contradiction

/-- A word in front of which no name is marked is a name itself. -/
theorem takes_identifier_word (begun : Begins d [.word word] cs rest) (capital : Capital word) :
    ∃ spelled, spelled.map Char.toLower = word.toList.map Char.toLower ∧
      (identifier d).Takes cs (String.ofList spelled) rest := by
  cases begun with
  | word _ opened ended later =>
    cases later
    obtain ⟨blank, spelled, rfl, alike⟩ := opened
    refine ⟨spelled, alike, takes_blank _ blank ?_⟩
    refine takes_identifier_letters d ?_ (letters_of_alike word capital spelled alike) ended
    rintro rfl
    rw [List.map_nil, eq_comm, List.map_eq_nil_iff] at alike
    exact capital.1 alike

theorem takes_identifier_name (begun : Begins d [.name] cs rest) : ∃ name, (identifier d).Takes cs name rest := by
  cases begun with
  | name text blank lines ended later =>
    cases later
    have quiet := quiet_nameMark d
    have held : Quoting.Holds ⟨nameMark d, .nothing, true⟩ text := by
      intro c member
      refine ⟨fun _ => rfl, fun ends => ?_⟩
      rw [lines c member] at ends
      contradiction
    have closed := Quoting.close_double ⟨nameMark d, .nothing, true⟩ text rest held ended
    exact ⟨_, takes_blank _ blank ((takes_quoted _ ⟨quiet.1, quiet.2.1⟩ closed).choice _)⟩

end Rule
end Reader
end SqlSchema
