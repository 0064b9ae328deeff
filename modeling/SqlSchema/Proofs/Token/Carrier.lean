import Mathlib.Data.List.TakeWhile
import SqlSchema.Proofs.Text.Lower
import SqlSchema.Proofs.Text.Quoted
import SqlSchema.Token.Lexer

/-! Texts that look the same to the rules that make tokens. Letters may change their case, and semicolons may stand behind
a text: classes of characters, phrases and quotes are found in the same places. -/
namespace SqlSchema.Token
open Text

/-- A change of letters to others that differ in case at most, and semicolons to be put behind a text. -/
structure Carrier where
  shift : Char → Char
  tail : List Char
  caseless : ∀ c, (shift c).toLower = c.toLower
  sealed : ∀ c ∈ tail, c = ';'

/-- Characters that only stand for themselves and are not put behind a text. -/
def IsMark (c : Char) : Prop := c.isAlpha = false ∧ c ≠ ';'

instance (c : Char) : Decidable (IsMark c) := inferInstanceAs (Decidable (_ ∧ _))

/-- A class of characters without the semicolon that has a letter in both cases or in none. -/
structure Blind (p : Char → Bool) : Prop where
  caseless : Caseless p
  unsealed : p ';' = false

/-! Letters of phrases. -/

theorem not_variant_of_ascii (capital : Char) {c : Char} (ascii : c.toNat < 128) :
    ((variants.lookup capital).getD []).contains c.toNat = false := by
  have known : ∀ entry ∈ variants, ∀ n ∈ entry.2, ¬ n < 128 := by decide
  cases found : variants.lookup capital with
  | none => rfl
  | some codes =>
    obtain ⟨front, behind, split, _⟩ := List.lookup_eq_some_iff.mp found
    have member : (capital, codes) ∈ variants := by simp [split]
    cases listed : codes.contains c.toNat with
    | false => exact listed
    | true => exact absurd ascii (known _ member _ (List.contains_iff_mem.mp listed))

theorem caseless_isLetter (capital : Char) : Caseless (isLetter capital) := by
  refine caseless_iff.mpr fun c => ?_
  by_cases ascii : c.toNat < 128
  · have small : c.toLower.toNat < 128 := forall_ascii (P := fun c => c.toLower.toNat < 128) (by decide) c ascii
    have same : c.toLower.toUpper = c.toUpper :=
      forall_ascii (P := fun c => c.toLower.toUpper = c.toUpper) (by decide) c ascii
    rw [isLetter, isLetter, not_variant_of_ascii capital small, not_variant_of_ascii capital ascii, same]
  · rw [toLower_of_foreign c ascii]

theorem blind_isLetter {capital : Char} (other : capital ≠ ';') : Blind (isLetter capital) where
  caseless := caseless_isLetter capital
  unsealed := by
    have own : (';'.toUpper == capital) = false := beq_false_of_ne (Ne.symm other)
    rw [isLetter, own, not_variant_of_ascii capital (by decide), Bool.or_false]

theorem blind_isBlank : Blind isBlank := ⟨caseless_isBlank, by decide⟩

theorem blind_isDigit : Blind isDigit := ⟨caseless_isDigit, by decide⟩

theorem blind_isWord : Blind isWord := ⟨caseless_isWord, by decide⟩

theorem blind_isNameStart : Blind isNameStart := ⟨caseless_of_ascii (by decide), by decide⟩

theorem blind_isNameStartOrUnderscore : Blind isNameStartOrUnderscore := ⟨caseless_of_ascii (by decide), by decide⟩

theorem blind_isWordPart : Blind isWordPart := ⟨caseless_of_ascii (by decide), by decide⟩

theorem blind_isHexDigit : Blind isHexDigit := ⟨caseless_of_ascii (by decide), by decide⟩

theorem blind_isComparisonSign : Blind isComparisonSign := ⟨caseless_of_ascii (by decide), by decide⟩

theorem blind_isOperatorSign : Blind isOperatorSign := ⟨caseless_of_ascii (by decide), by decide⟩

theorem caseless_isPunctuation : Caseless isPunctuation := caseless_of_ascii (by decide)

/-- No word of the phrase has a semicolon. -/
def Unsealed (words : List String) : Prop := ∀ word ∈ words, ';' ∉ word.toList

instance (words : List String) : Decidable (Unsealed words) := inferInstanceAs (Decidable (∀ _ ∈ _, _))

namespace Carrier

variable (k : Carrier)

def carry (cs : List Char) : List Char := cs.map k.shift ++ k.tail

theorem carry_nil : k.carry [] = k.tail := rfl

theorem carry_cons (c : Char) (cs : List Char) : k.carry (c :: cs) = k.shift c :: k.carry cs := rfl

theorem caseless_shift {α : Type} {f : Char → α} (caseless : Caseless f) (c : Char) : f (k.shift c) = f c :=
  caseless _ _ (k.caseless c)

theorem shift_eq_iff {c d : Char} (sign : d.isAlpha = false) : k.shift c = d ↔ c = d := by
  have same := k.caseless_shift (caseless_beq sign) c
  rw [Bool.eq_iff_iff, beq_iff_eq, beq_iff_eq] at same
  exact same

theorem shift_eq_self {c : Char} (sign : c.isAlpha = false) : k.shift c = c := (k.shift_eq_iff sign).mpr rfl

theorem tail_cases : k.tail = [] ∨ ∃ more, k.tail = ';' :: more := by
  cases split : k.tail with
  | nil => exact .inl rfl
  | cons c more => exact .inr ⟨more, by rw [k.sealed c (split ▸ List.mem_cons_self ..)]⟩

/-- Marks at the front are marks of the text. -/
theorem eq_append_of_carry {cs rest : List Char} (front : List Char) (marks : ∀ c ∈ front, IsMark c)
    (same : k.carry cs = front ++ rest) : ∃ more, cs = front ++ more ∧ k.carry more = rest := by
  induction front generalizing cs with
  | nil => exact ⟨cs, rfl, same⟩
  | cons c front ih =>
    obtain ⟨⟨sign, other⟩, later⟩ := List.forall_mem_cons.mp marks
    cases cs with
    | nil =>
      rw [carry_nil] at same
      exact absurd (k.sealed c (same ▸ List.mem_cons_self ..)) other
    | cons d cs =>
      obtain ⟨first, behind⟩ := List.cons.inj same
      obtain ⟨more, rfl, found⟩ := ih later behind
      exact ⟨more, by rw [(k.shift_eq_iff sign).mp first, List.cons_append], found⟩

theorem carry_front (front : List Char) (marks : ∀ c ∈ front, IsMark c) (rest : List Char) :
    k.carry (front ++ rest) = front ++ k.carry rest := by
  have own (c : Char) (member : c ∈ front) : k.shift c = c := k.shift_eq_self (marks c member).1
  rw [carry, carry, List.map_append, List.append_assoc, List.map_congr_left own, List.map_id']

theorem eq_cons_of_carry {cs rest : List Char} {c : Char} (same : k.carry cs = c :: rest) :
    (∃ d more, cs = d :: more ∧ k.shift d = c ∧ k.carry more = rest) ∨ cs = [] ∧ c = ';' := by
  cases cs with
  | nil =>
    rw [carry_nil] at same
    exact .inr ⟨rfl, k.sealed c (same ▸ List.mem_cons_self ..)⟩
  | cons d more =>
    obtain ⟨first, behind⟩ := List.cons.inj same
    exact .inl ⟨d, more, rfl, first, behind⟩

theorem not_pair_carry {c : Char} {rest : List Char} {a b : Char} (first : a.isAlpha = false) (second : IsMark b)
    (pair : ∀ more, c = a → rest = b :: more → False) (more : List Char) (one : k.shift c = a)
    (two : k.carry rest = b :: more) : False := by
  obtain ⟨behind, rfl, _⟩ := k.eq_append_of_carry [b] (List.forall_mem_singleton.mpr second) two
  exact pair behind ((k.shift_eq_iff first).mp one) rfl

section
variable {p : Char → Bool} (blind : Blind p) (cs : List Char)
include blind

theorem takeWhile_tail : k.tail.takeWhile p = [] := by
  rcases k.tail_cases with none | ⟨more, split⟩
  · rw [none, List.takeWhile_nil]
  · rw [split, List.takeWhile_cons_of_neg (by simp [blind.unsealed])]

theorem dropWhile_tail : k.tail.dropWhile p = k.tail := by
  rcases k.tail_cases with none | ⟨more, split⟩
  · rw [none, List.dropWhile_nil]
  · rw [split, List.dropWhile_cons_of_neg (by simp [blind.unsealed])]

theorem takeWhile_carry : (k.carry cs).takeWhile p = (cs.takeWhile p).map k.shift := by
  induction cs with
  | nil => exact k.takeWhile_tail blind
  | cons c cs ih =>
    rw [carry_cons, List.takeWhile_cons, List.takeWhile_cons, k.caseless_shift blind.caseless, ih]
    split <;> rfl

theorem dropWhile_carry : (k.carry cs).dropWhile p = k.carry (cs.dropWhile p) := by
  induction cs with
  | nil => exact k.dropWhile_tail blind
  | cons c cs ih =>
    rw [carry_cons, List.dropWhile_cons, List.dropWhile_cons, k.caseless_shift blind.caseless, ih]
    split <;> rfl

theorem any_head?_carry : (k.carry cs).head?.any p = cs.head?.any p := by
  cases cs with
  | nil =>
    rw [carry_nil]
    rcases k.tail_cases with none | ⟨more, split⟩
    · rw [none]
    · simp [split, blind.unsealed]
  | cons c cs => exact k.caseless_shift blind.caseless c

end

theorem head?_carry {mark : Char} (own : IsMark mark) (cs : List Char) :
    (k.carry cs).head? = some mark ↔ cs.head? = some mark := by
  cases cs with
  | nil =>
    rw [carry_nil, List.head?_nil]
    refine iff_of_false (fun head => own.2 (k.sealed mark (List.mem_of_mem_head? head))) (by simp)
  | cons c cs => simp [carry_cons, k.shift_eq_iff own.1]

theorem upper_shift (cs : List Char) : upper (cs.map k.shift) = upper cs := by
  rw [upper, upper, List.flatMap_map]
  exact congrArg (List.flatMap · cs) (funext (k.caseless_shift caseless_capitals))

theorem trimLeft_carry (cs : List Char) : trimLeft (k.carry cs) = k.carry (trimLeft cs) :=
  k.dropWhile_carry blind_isBlank cs

theorem shift_any {p : Char → Bool} (caseless : Caseless p) (before : Option Char) :
    (before.map k.shift).any p = before.any p := by
  cases before with
  | none => rfl
  | some c => exact k.caseless_shift caseless c

section
variable {p : Char → Bool} (caseless : Caseless p)
include caseless

theorem break_carry {cs after : List Char} {b : Char} (found : cs.dropWhile p = b :: after) :
    (k.carry cs).takeWhile p = (cs.takeWhile p).map k.shift ∧ (k.carry cs).dropWhile p = k.carry (b :: after) := by
  induction cs with
  | nil => contradiction
  | cons c cs ih =>
    rw [List.dropWhile_cons] at found
    rw [carry_cons, List.takeWhile_cons, List.takeWhile_cons, List.dropWhile_cons, k.caseless_shift caseless]
    split at found
    next inside =>
      obtain ⟨taken, dropped⟩ := ih found
      rw [if_pos inside, if_pos inside, if_pos inside, taken, dropped, List.map_cons]
      exact ⟨rfl, rfl⟩
    next outside =>
      rw [if_neg outside, if_neg outside, if_neg outside, ← found]
      exact ⟨rfl, rfl⟩

theorem dropWhile_carry_nil (semicolon : p ';' = true) {cs : List Char} (found : cs.dropWhile p = []) :
    (k.carry cs).dropWhile p = [] := by
  have last : ∀ c ∈ k.tail, p c = true := fun c member => by rw [k.sealed c member, semicolon]
  rw [List.dropWhile_eq_nil_iff] at found ⊢
  intro c member
  rcases List.mem_append.mp member with front | behind
  · obtain ⟨d, inside, rfl⟩ := List.mem_map.mp front
    rw [k.caseless_shift caseless]
    exact found d inside
  · exact last c behind

end

/-! Phrases. -/

theorem spelled_carry {word : List Char} (own : ';' ∉ word) (cs : List Char) :
    spelled word (k.carry cs) = (spelled word cs).map k.carry := by
  induction word generalizing cs with
  | nil => rfl
  | cons l word ih =>
    obtain ⟨here, later⟩ := List.ne_and_not_mem_of_not_mem_cons own
    have letter := blind_isLetter here.symm
    cases cs with
    | nil =>
      rw [carry_nil]
      rcases k.tail_cases with none | ⟨more, split⟩
      · rw [none]
        rfl
      · simp [split, spelled, letter.unsealed]
    | cons c cs =>
      rw [carry_cons, spelled, spelled, k.caseless_shift letter.caseless, ih later]
      split <;> rfl

theorem blanks_carry (cs : List Char) : blanks (k.carry cs) = (blanks cs).map k.carry := by
  cases cs with
  | nil =>
    rw [carry_nil]
    rcases k.tail_cases with none | ⟨more, split⟩
    · rw [none]
      rfl
    · rw [split]
      rfl
  | cons c cs =>
    rw [carry_cons, blanks, blanks, k.caseless_shift caseless_isBlank, trimLeft_carry]
    split <;> rfl

theorem phrase_carry {words : List String} (unsealed : Unsealed words) (cs : List Char) :
    phrase words (k.carry cs) = (phrase words cs).map k.carry := by
  induction words generalizing cs with
  | nil => rfl
  | cons word more ih =>
    obtain ⟨here, later⟩ := List.forall_mem_cons.mp unsealed
    cases more with
    | nil => exact k.spelled_carry here cs
    | cons next more =>
      rw [phrase, phrase, k.spelled_carry here]
      · cases spelled word.toList cs with
        | none => rfl
        | some after =>
          have gap := k.blanks_carry after
          cases found : blanks after with
          | none =>
            rw [found] at gap
            simp [gap, found]
          | some rest =>
            rw [found] at gap
            simp [gap, found, ih later]
      all_goals exact List.cons_ne_nil _ _

theorem wordEnds_carry (cs : List Char) : wordEnds (k.carry cs) = wordEnds cs := by
  cases cs with
  | nil =>
    rw [carry_nil]
    rcases k.tail_cases with none | ⟨more, split⟩
    · rw [none]
    · rw [split]
      rfl
  | cons c cs => exact congrArg (!·) (k.caseless_shift caseless_isWord c)

theorem endingWord_carry (after : Option (List Char)) :
    endingWord (after.map k.carry) = (endingWord after).map k.carry := by
  cases after with
  | none => rfl
  | some after =>
    rw [Option.map_some, endingWord, endingWord, Option.filter_some, Option.filter_some, wordEnds_carry]
    split <;> rfl

theorem firstPhrase_carry {phrases : List (List String)} (unsealed : ∀ words ∈ phrases, Unsealed words)
    (cs : List Char) : firstPhrase phrases (k.carry cs) = (firstPhrase phrases cs).map k.carry := by
  induction phrases with
  | nil => rfl
  | cons words more ih =>
    obtain ⟨here, later⟩ := List.forall_mem_cons.mp unsealed
    rw [firstPhrase] at ih ⊢
    rw [firstPhrase, List.findSome?_cons, List.findSome?_cons, k.phrase_carry here, endingWord_carry]
    cases endingWord (phrase words cs) with
    | none => exact ih later
    | some after => rfl

/-! Quotes. -/

theorem mark_not_mem_tail {c : Char} (own : IsMark c) : c ∉ k.tail := fun member => own.2 (k.sealed c member)

/-- A quote is closed at the same place. -/
theorem close_carry (q : Quoting) (own : IsMark q.mark) :
    ∀ cs, q.close (k.carry cs) = (q.close cs).map (Prod.map (List.map k.shift) k.carry)
  | [] => Quoting.close_of_not_mem (k.mark_not_mem_tail own)
  | [c] => by
    have mark : k.shift c = q.mark ↔ c = q.mark := k.shift_eq_iff own.1
    have none := k.mark_not_mem_tail own
    rw [carry_cons, carry_nil]
    rcases k.tail_cases with last | ⟨more, split⟩
    · rw [last, Quoting.close, Quoting.close]
      simp only [mark]
      split
      · simp [carry_nil, last]
      · rfl
    · rw [split] at none ⊢
      have short : q.close more = .none := Quoting.close_of_not_mem (List.not_mem_of_not_mem_cons none)
      have next : q.close (';' :: more) = .none := Quoting.close_of_not_mem none
      have other : ';' ≠ q.mark := Ne.symm own.2
      rw [Quoting.close, Quoting.close]
      simp only [mark, other, short, next]
      split_ifs <;> first | rfl | simp [carry_nil, split]
  | c :: d :: rest => by
    have mark (c : Char) : k.shift c = q.mark ↔ c = q.mark := k.shift_eq_iff own.1
    have slash : k.shift c = '\\' ↔ c = '\\' := k.shift_eq_iff (by decide)
    have feed : k.shift d = '\n' ↔ d = '\n' := k.shift_eq_iff (by decide)
    have short := close_carry q own rest
    have next := close_carry q own (d :: rest)
    rw [carry_cons] at next
    rw [carry_cons, carry_cons, Quoting.close, Quoting.close]
    simp only [mark, slash, feed, k.caseless_shift caseless_isLineEnd, short, next]
    cases q.close rest <;> cases q.close (d :: rest) <;> split_ifs <;> rfl

end Carrier
end SqlSchema.Token
