import SqlSchema.Proofs.Statement.Comments
import SqlSchema.Proofs.Text.Quoted

/-! Quoted texts among code. Where all that look for the end of a quote find the same one, tidying lines, cutting
comments after a number sign and trimming leave every quoted text as it is, and of the code all that can be seen. -/
namespace SqlSchema.Statement
open Text

/-- How the rules of a dialect quote names and strings. -/
def quotings : Dialect → List Quoting
  | .mysql => [⟨'\x27', .any, false⟩, ⟨'\x22', .any, false⟩, ⟨'\x60', .nothing, false⟩]
  | .postgres => [⟨'\x27', .nothing, false⟩, ⟨'\x22', .nothing, false⟩]

/-- A text between quotes of a dialect. -/
structure Quote (d : Dialect) where
  quoting : Quoting
  known : quoting ∈ quotings d
  body : List Char
  closed : quoting.close (body ++ [quoting.mark]) = some (body, [])
deriving DecidableEq

namespace Quote
variable {d : Dialect} (q : Quote d)

def mark : Char := q.quoting.mark

def chars : List Char := q.mark :: (q.body ++ [q.mark])

/-- Nothing in the quoted text misleads those that look for its end, in front of the rest of the text. Names in
backticks are not known to all of them. -/
def Steady (rest : List Char) : Prop :=
  if q.mark = '\x60' then ∀ c ∈ q.body, isLineEnd c = false ∧ c ≠ '\x27' ∧ c ≠ '\x22'
  else Text.Steady q.mark rest q.body

theorem mark_cases : q.mark = '\x27' ∨ q.mark = '\x22' ∨ q.mark = '\x60' := by
  have known : ∀ d, ∀ quoting ∈ quotings d, quoting.mark = '\x27' ∨ quoting.mark = '\x22' ∨ quoting.mark = '\x60' := by
    intro d
    cases d <;> decide
  exact known d _ q.known

theorem isHashQuote_mark : isHashQuote q.mark = true := by
  rcases q.mark_cases with same | same | same <;> rw [same] <;> decide

theorem isBlank_mark : isBlank q.mark = false := by
  rcases q.mark_cases with same | same | same <;> rw [same] <;> decide

theorem mark_ne_slash : q.mark ≠ '\\' := by
  rcases q.mark_cases with same | same | same <;> rw [same] <;> decide

theorem getLast?_chars : q.chars.getLast? = some q.mark := by
  rw [chars, List.getLast?_cons, List.getLast?_append]
  rfl

theorem length_chars : q.chars.length = q.body.length + 2 := by simp [chars]

theorem chars_append (rest : List Char) : q.chars ++ rest = q.mark :: (q.body ++ q.mark :: rest) := by
  simp [chars]

/-- Quotes do not touch where none follows. -/
theorem ne_mark {rest : List Char} (ended : ∀ c, rest.head? = some c → isHashQuote c = false) :
    rest.head? ≠ some q.mark := by
  intro same
  have quote := ended _ same
  rw [q.isHashQuote_mark] at quote
  contradiction

/-- The quotes are closed where they should be in front of any text that does not go on with a mark. -/
theorem close_append {rest : List Char} (apart : rest.head? ≠ some q.mark) :
    q.quoting.close (q.body ++ q.mark :: rest) = some (q.body, rest) := by
  have unguarded : ∀ d, ∀ quoting ∈ quotings d, quoting.escape ≠ .quote := by
    intro d
    cases d <;> decide
  have longer : q.quoting.close (q.body ++ [q.mark] ++ rest) = some (q.body, [] ++ rest) :=
    Quoting.close_longer (unguarded d _ q.known) q.closed apart
  rwa [List.append_assoc, List.singleton_append] at longer

variable {q}

/-- What is behind the quotes does not matter but where a mark is expected. -/
theorem Steady.alone {rest : List Char} (steady : q.Steady rest) : q.Steady [] := by
  unfold Steady at steady ⊢
  split
  next back =>
    rw [if_pos back] at steady
    exact steady
  next other =>
    rw [if_neg other] at steady
    exact steady.alone

end Quote

/-! What is seen of a text. -/

/-- A character outside quotes, or a quoted text as a whole. -/
inductive Sight (d : Dialect) where
  | char (c : Char)
  | quote (q : Quote d)

/-- What is seen of code. -/
def sights (d : Dialect) (cs : List Char) : List (Sight d) := (visible cs).map .char

theorem sights_append (d : Dialect) (front more : List Char) :
    sights d (front ++ more) = sights d front ++ sights d more := by
  rw [sights, visible_append, List.map_append]
  rfl

theorem sights_of_blank (d : Dialect) {cs : List Char} (blank : ∀ c ∈ cs, isBlank c = true) : sights d cs = [] := by
  rw [sights, visible_of_blank cs blank, List.map_nil]

/-- A text of code and steady quotes, and what is seen of it. The code is made of characters of some kind. -/
inductive Outlined (d : Dialect) (P : Char → Prop) : List Char → List (Sight d) → Prop
  | nil : Outlined d P [] []
  | char {c cs o} (code : P c) (later : Outlined d P cs o) : Outlined d P (c :: cs) (sights d [c] ++ o)
  | quote {cs o} (q : Quote d) (steady : q.Steady []) (ended : ∀ c, cs.head? = some c → isHashQuote c = false)
    (later : Outlined d P cs o) : Outlined d P (q.chars ++ cs) (.quote q :: o)

namespace Outlined
variable {d : Dialect} {P : Char → Prop} {cs front more : List Char} {o first second : List (Sight d)}

theorem tail {c : Char} (outlined : Outlined d P (c :: cs) o) (plain : isHashQuote c = false) :
    P c ∧ ∃ later, Outlined d P cs later ∧ o = sights d [c] ++ later := by
  generalize whole : c :: cs = text at outlined
  cases outlined with
  | nil => contradiction
  | char code later =>
    cases whole
    exact ⟨code, _, later, rfl⟩
  | quote q =>
    rw [(List.cons.inj whole).1, q.isHashQuote_mark] at plain
    contradiction

theorem of_code (code : ∀ c ∈ cs, P c) : Outlined d P cs (sights d cs) := by
  induction cs with
  | nil => exact .nil
  | cons c cs ih =>
    obtain ⟨here, later⟩ := List.forall_mem_cons.mp code
    rw [← List.singleton_append, sights_append]
    exact .char here (ih later)

/-- Texts may be put together where no two quotes touch. -/
theorem append (one : Outlined d P front first) (two : Outlined d P more second)
    (apart : (∀ c, more.head? = some c → isHashQuote c = false) ∨
      ∀ c, front.getLast? = some c → isHashQuote c = false) :
    Outlined d P (front ++ more) (first ++ second) := by
  have shorter (before : List Char) {rest : List Char}
      (last : ∀ c, (before ++ rest).getLast? = some c → isHashQuote c = false) :
      ∀ c, rest.getLast? = some c → isHashQuote c = false :=
    fun c final => last c (by rw [List.getLast?_append, final, Option.some_or])
  induction one with
  | nil => exact two
  | @char c cs o code _ ih =>
    rw [List.cons_append, List.append_assoc]
    exact .char code (ih (apart.imp_right (shorter [c])))
  | @quote cs o q steady ended _ ih =>
    rw [List.append_assoc, List.cons_append]
    refine .quote q steady ?_ (ih (apart.imp_right (shorter _)))
    intro c head
    cases cs with
    | cons b cs => exact ended c head
    | nil =>
      refine apart.elim (fun next => next c head) fun last => ?_
      have quote := last q.mark (by rw [List.append_nil, q.getLast?_chars])
      exact nomatch q.isHashQuote_mark.symm.trans quote

/-! Trimming. -/

theorem nil_of_blank (outlined : Outlined d P cs o) (blank : ∀ c ∈ cs, isBlank c = true) : o = [] := by
  induction outlined with
  | nil => rfl
  | char _ _ ih =>
    obtain ⟨here, later⟩ := List.forall_mem_cons.mp blank
    rw [ih later, sights_of_blank d (List.forall_mem_singleton.mpr here), List.append_nil]
  | quote q =>
    have white := blank q.mark (List.mem_cons_self ..)
    rw [q.isBlank_mark] at white
    contradiction

theorem trimLeft (outlined : Outlined d P cs o) : Outlined d P (Text.trimLeft cs) o := by
  induction outlined with
  | nil => exact .nil
  | @char c cs o code later ih =>
    by_cases blank : isBlank c = true
    · rwa [Text.trimLeft, List.dropWhile_cons_of_pos blank, sights_of_blank d (List.forall_mem_singleton.mpr blank)]
    · rw [Text.trimLeft, List.dropWhile_cons_of_neg blank]
      exact .char code later
  | quote q steady ended later =>
    rw [Text.trimLeft, q.chars_append, List.dropWhile_cons_of_neg (by simp [q.isBlank_mark]), ← q.chars_append]
    exact .quote q steady ended later

/-- White space at the end may be left out. -/
theorem of_append_blank {blanks : List Char} (outlined : Outlined d P (cs ++ blanks) o)
    (blank : ∀ c ∈ blanks, isBlank c = true) : Outlined d P cs o := by
  generalize whole : cs ++ blanks = text at outlined
  induction outlined generalizing cs with
  | nil =>
    rw [(List.append_eq_nil_iff.mp whole).1]
    exact .nil
  | @char c rest o code later ih =>
    cases cs with
    | nil =>
      rw [List.nil_append] at whole
      rw [(Outlined.char code later).nil_of_blank (whole ▸ blank)]
      exact .nil
    | cons b cs =>
      obtain ⟨rfl, same⟩ := List.cons.inj whole
      exact .char code (ih same)
  | @quote rest o q steady ended _ ih =>
    obtain ⟨left, rfl, rfl⟩ := split_of_last whole fun l last inside => by
      rw [q.getLast?_chars, Option.mem_some_iff] at last
      have white := blank l inside
      rw [← last, q.isBlank_mark] at white
      contradiction
    refine .quote q steady (fun c head => ended c ?_) (ih rfl)
    rw [List.head?_append, head, Option.some_or]

theorem trimRight (outlined : Outlined d P cs o) : Outlined d P (Text.trimRight cs) o := by
  obtain ⟨blanks, split, blank⟩ := trimRight_append cs
  exact of_append_blank (split ▸ outlined) blank

theorem trim (outlined : Outlined d P cs o) : Outlined d P (Text.trim cs) o := outlined.trimLeft.trimRight

/-! Comments after a number sign. -/

/-- Quotes are closed for them as the rules close them. -/
theorem cutHashes_eq_self {o : List (Sight .mysql)} (plain : ∀ c, P c → isHashQuote c = false ∧ c ≠ '#')
    (outlined : Outlined .mysql P cs o) : cutHashes cs = cs := by
  induction outlined with
  | nil => rw [cutHashes]
  | char code _ ih =>
    obtain ⟨unquoted, free⟩ := plain _ code
    rw [cutHashes, if_neg (by simp [unquoted]), if_neg free, ih]
  | @quote cs _ q _ ended _ ih =>
    have known : ∀ quoting ∈ quotings .mysql, hashQuoting quoting.mark = quoting := by decide
    have same := known _ q.known
    have closed := q.close_append (q.ne_mark ended)
    rw [q.chars_append, cutHashes, if_pos q.isHashQuote_mark]
    split
    next inside after found =>
      rw [Quote.mark, same] at found
      cases closed.symm.trans found
      rw [ih, List.cons_append]
    next missed =>
      rw [Quote.mark, same] at missed
      cases closed.symm.trans missed

end Outlined

/-! Lines. -/

/-- A quote stays within its line. -/
theorem linesFrom_quote {d : Dialect} {q : Quote d} (steady : q.Steady []) (current : List Char) {rest : List Char}
    (ended : ∀ c, rest.head? = some c → isHashQuote c = false) :
    linesFrom current (q.chars ++ rest) = linesFrom (q.chars.reverse ++ current) rest := by
  by_cases back : q.mark = '\x60'
  · rw [Quote.Steady, if_pos back] at steady
    refine linesFrom_append current rest q.chars ?_
    have mark : isLineEnd q.mark = false ∧ q.mark ≠ '\x27' ∧ q.mark ≠ '\x22' := by rw [back]; decide
    exact List.forall_mem_cons.mpr ⟨mark, List.forall_mem_append.mpr ⟨steady, List.forall_mem_singleton.mpr mark⟩⟩
  · rw [Quote.Steady, if_neg back] at steady
    have quote : q.mark = '\x27' ∨ q.mark = '\x22' := by
      rcases q.mark_cases with same | same | same
      · exact .inl same
      · exact .inr same
      · exact absurd same back
    have closed : Quoting.close ⟨q.mark, .inLine, false⟩ (q.body ++ [q.mark]) = some (q.body, []) :=
      Quoting.close_steady rfl q.mark_ne_slash (.inr rfl) steady (by simp)
    have longer := Quoting.close_longer (by simp) closed (q.ne_mark ended)
    rw [List.append_assoc, List.singleton_append, List.nil_append] at longer
    rw [q.chars_append, linesFrom_closed current quote longer]
    simp [Quote.chars]

namespace Outlined
variable {d : Dialect} {P : Char → Prop} {cs current : List Char} {o past : List (Sight d)}

/-- Lines are cut in code only. -/
theorem joinLines (plain : ∀ c, P c → isHashQuote c = false) (feed : P '\n') (outlined : Outlined d P cs o)
    (before : Outlined d P current.reverse past)
    (apart : (∀ c, cs.head? = some c → isHashQuote c = false) ∨
      ∀ c, current.reverse.getLast? = some c → isHashQuote c = false) :
    Outlined d P (Statement.joinLines (linesFrom current cs)) (past ++ o) := by
  induction size : cs.length using Nat.strongRecOn generalizing cs current o past with
  | ind n ih =>
    have cut {rest : List Char} {later : List (Sight d)} (shorter : rest.length < n)
        (outlined : Outlined d P rest later) :
        Outlined d P (Statement.joinLines (current.reverse :: linesFrom [] rest)) (past ++ later) := by
      have start : Outlined d P [].reverse [] := .nil
      have further := ih _ shorter outlined start (.inr (by simp)) rfl
      have line : Outlined d P ('\n' :: Statement.joinLines (linesFrom [] rest)) (sights d ['\n'] ++ later) :=
        .char feed further
      rw [joinLines_cons _ _ (linesFrom_ne_nil [] rest)]
      exact before.trimRight.append line (.inl fun c head => Option.some.inj head ▸ by decide)
    cases outlined with
    | nil =>
      have last : Statement.joinLines (linesFrom current []) = Text.trimRight current.reverse := by
        rw [linesFrom]
        exact List.intercalate_singleton ..
      rw [last, List.append_nil]
      exact before.trimRight
    | @char c rest o code later =>
      rw [List.length_cons] at size
      by_cases ends : isLineEnd c = true
      · have blank : sights d [c] = [] :=
          sights_of_blank d (List.forall_mem_singleton.mpr (isBlank_of_isLineEnd c ends))
        rw [blank, List.nil_append]
        by_cases both : c = '\r' ∧ rest.head? = some '\n'
        · obtain ⟨rfl, head⟩ := both
          obtain ⟨rest, rfl⟩ := List.head?_eq_some_iff.mp head
          obtain ⟨_, further, outlined, rfl⟩ := later.tail (by decide)
          rw [linesFrom]
          rw [List.length_cons] at size
          exact cut (by omega) outlined
        · rw [linesFrom_ends current ends fun turn head => both ⟨turn, head⟩]
          exact cut (by omega) later
      · have unquoted := plain c code
        have other : c ≠ '\x27' ∧ c ≠ '\x22' := by
          constructor
          all_goals
            rintro rfl
            exact absurd unquoted (by decide)
        rw [linesFrom_char current rest (by simpa using ends) other, ← List.append_assoc]
        refine ih _ (by omega) later ?_ (.inr fun b last => ?_) rfl
        · rw [List.reverse_cons]
          have single : Outlined d P [c] (sights d [c]) := of_code (List.forall_mem_singleton.mpr code)
          exact before.append single (.inl fun b head => Option.some.inj head ▸ unquoted)
        · rw [List.reverse_cons, List.getLast?_append, List.getLast?_singleton, Option.some_or] at last
          exact Option.some.inj last ▸ unquoted
    | @quote rest o q steady ended later =>
      rw [linesFrom_quote steady current ended]
      have single : Outlined d P (q.chars ++ []) [.quote q] := .quote q steady (by simp) .nil
      rw [List.append_nil] at single
      have front : Outlined d P (q.chars.reverse ++ current).reverse (past ++ [.quote q]) := by
        rw [List.reverse_append, List.reverse_reverse]
        exact before.append single apart
      have shorter : rest.length < n := by
        rw [← size, List.length_append, q.length_chars]
        omega
      have whole := ih _ shorter later front (.inl ended) rfl
      rwa [List.append_assoc] at whole

theorem tidyLines (plain : ∀ c, P c → isHashQuote c = false) (feed : P '\n') (outlined : Outlined d P cs o) :
    Outlined d P (Statement.tidyLines cs) o := by
  have start : Outlined d P [].reverse [] := .nil
  exact outlined.joinLines plain feed start (.inr (by simp))

end Outlined

end SqlSchema.Statement
