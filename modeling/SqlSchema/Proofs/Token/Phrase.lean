import Mathlib.Data.List.TakeWhile
import SqlSchema.Proofs.Text.Upper
import SqlSchema.Token.Phrase

/-! What reserved phrases consist of: word characters, and white space between words. -/
namespace SqlSchema.Token
open Text

/-- A character of a phrase. -/
def isWordOrBlank (c : Char) : Bool := isWord c || isBlank c

def Wordy (cs : List Char) : Prop := ∀ c ∈ cs, isWordOrBlank c = true

/-- The words of phrases are made of capital letters and underscores. -/
def Plain (words : List String) : Prop := ∀ word ∈ words, ∀ l ∈ word.toList, (l.isUpper || l == '_') = true

instance (words : List String) : Decidable (Plain words) := inferInstanceAs (Decidable (∀ _ ∈ _, _))

theorem isWord_of_ranges (c : Char) (foreign : ¬ c.toNat < 128) (inside : inRanges wordRanges c.toNat = true) :
    isWord c = true := by
  rw [isWord, if_neg foreign, inside]

/-- Beyond ASCII nothing has a capital of its own. -/
theorem toUpper_of_foreign (c : Char) (foreign : ¬ c.toNat < 128) : c.toUpper = c := by
  unfold Char.toUpper
  split
  next small =>
    have last : c.toNat ≤ 122 := small.2
    omega
  next => rfl

theorem isWord_of_isLetter (l c : Char) (capital : (l.isUpper || l == '_') = true) (letter : isLetter l c = true) :
    isWord c = true := by
  have usual : l.toNat < 128 := by
    simp only [Bool.or_eq_true, beq_iff_eq] at capital
    rcases capital with upper | rfl
    · exact ascii_of_isAlpha l ((isAlpha_iff l).mpr (.inl upper))
    · decide
  simp only [isLetter, Bool.or_eq_true, beq_iff_eq] at letter
  rcases letter with same | variant
  · subst same
    by_cases ascii : c.toNat < 128
    · exact forall_ascii (P := fun c => (c.toUpper.isUpper || c.toUpper == '_') = true → isWord c = true)
        (by decide) c ascii capital
    · rw [toUpper_of_foreign c ascii] at usual
      exact absurd usual ascii
  · have known : ∀ entry ∈ variants, ∀ n ∈ entry.2, ¬ n < 128 ∧ inRanges wordRanges n = true := by decide +kernel
    cases found : variants.lookup l with
    | none => simp [found] at variant
    | some codes =>
      obtain ⟨before, after, split, _⟩ := List.lookup_eq_some_iff.mp found
      have member : (l, codes) ∈ variants := by simp [split]
      have listed : c.toNat ∈ codes := by simpa [found] using variant
      obtain ⟨foreign, inside⟩ := known _ member _ listed
      exact isWord_of_ranges c foreign inside

theorem isWord_of_isDigit (c : Char) (digit : isDigit c = true) : isWord c = true := by
  by_cases ascii : c.toNat < 128
  · exact forall_ascii (P := fun c => isDigit c = true → isWord c = true) (by decide) c ascii digit
  · have known : (zeros.all fun z => wordRanges.any fun range => range.1.ble z && (z + 9).ble range.2) = true := by
      decide +kernel
    rw [isDigit, if_neg ascii, List.any_eq_true] at digit
    obtain ⟨z, member, bounds⟩ := digit
    simp only [List.all_eq_true, List.any_eq_true, Bool.and_eq_true, Nat.ble_eq] at known
    obtain ⟨range, listed, low, high⟩ := known z member
    simp only [Bool.and_eq_true, decide_eq_true_eq] at bounds
    exact isWord_of_ranges c ascii ((inRanges_iff ..).mpr ⟨range, listed, by omega, by omega⟩)

theorem Wordy.append {front more : List Char} (first : Wordy front) (second : Wordy more) : Wordy (front ++ more) := by
  intro c member
  rcases List.mem_append.mp member with here | there
  · exact first c here
  · exact second c there

/-- The text goes on behind a part of it that has the property. -/
def Cut (P : List Char → Prop) (cs after : List Char) : Prop := ∃ taken, cs = taken ++ after ∧ P taken

theorem Cut.mono {P Q : List Char → Prop} {cs after : List Char} (cut : Cut P cs after)
    (weaker : ∀ taken, P taken → Q taken) : Cut Q cs after := by
  obtain ⟨taken, split, holds⟩ := cut
  exact ⟨taken, split, weaker taken holds⟩

theorem Cut.trans {P Q R : List Char → Prop} {cs mid after : List Char} (first : Cut P cs mid)
    (second : Cut Q mid after) (append : ∀ front more, P front → Q more → R (front ++ more)) : Cut R cs after := by
  obtain ⟨front, rfl, holds⟩ := first
  obtain ⟨more, rfl, later⟩ := second
  exact ⟨front ++ more, (List.append_assoc ..).symm, append front more holds later⟩

theorem cut_dropWhile (p : Char → Bool) (cs : List Char) :
    Cut (fun taken => ∀ c ∈ taken, p c = true) cs (cs.dropWhile p) :=
  ⟨cs.takeWhile p, List.takeWhile_append_dropWhile.symm, fun _ member => List.mem_takeWhile_imp member⟩

theorem cut_spelled (word cs after : List Char) (plain : ∀ l ∈ word, (l.isUpper || l == '_') = true)
    (found : spelled word cs = some after) :
    Cut (fun taken => taken.length = word.length ∧ ∀ c ∈ taken, isWord c = true) cs after := by
  induction word generalizing cs with
  | nil =>
    cases Option.some.inj found
    exact ⟨[], rfl, rfl, List.forall_mem_nil _⟩
  | cons l word ih =>
    obtain ⟨capital, more⟩ := List.forall_mem_cons.mp plain
    cases cs with
    | nil => simp [spelled] at found
    | cons c rest =>
      rw [spelled] at found
      split at found
      next letter =>
        obtain ⟨taken, rfl, size, all⟩ := ih rest more found
        refine ⟨c :: taken, rfl, by simp [size], ?_⟩
        exact List.forall_mem_cons.mpr ⟨isWord_of_isLetter l c capital letter, all⟩
      next => contradiction

theorem cut_blanks (cs after : List Char) (found : blanks cs = some after) :
    Cut (fun taken => ∀ c ∈ taken, isBlank c = true) cs after := by
  cases cs with
  | nil => simp [blanks] at found
  | cons c rest =>
    rw [blanks] at found
    split at found
    next blank =>
      cases Option.some.inj found
      obtain ⟨taken, split, all⟩ := cut_dropWhile isBlank rest
      refine ⟨c :: taken, ?_, List.forall_mem_cons.mpr ⟨blank, all⟩⟩
      rw [List.cons_append, trimLeft, ← split]
    next => contradiction

theorem wordy_of_word {cs : List Char} (all : ∀ c ∈ cs, isWord c = true) : Wordy cs := by
  intro c member
  rw [isWordOrBlank, all c member, Bool.true_or]

theorem wordy_of_blank {cs : List Char} (all : ∀ c ∈ cs, isBlank c = true) : Wordy cs := by
  intro c member
  rw [isWordOrBlank, all c member, Bool.or_true]

/-- Word characters and white space, a word character last. -/
def Words (cs : List Char) : Prop := Wordy cs ∧ ∃ c, cs.getLast? = some c ∧ isWord c = true

theorem Words.filled {cs : List Char} (words : Words cs) : cs ≠ [] := by
  obtain ⟨_, c, last, _⟩ := words
  rintro rfl
  contradiction

theorem Wordy.append_words {front more : List Char} (first : Wordy front) (second : Words more) :
    Words (front ++ more) := by
  obtain ⟨wordy, c, last, word⟩ := second
  exact ⟨first.append wordy, c, by rw [List.getLast?_append, last, Option.some_or], word⟩

theorem words_of_word {cs : List Char} (all : ∀ c ∈ cs, isWord c = true) (filled : cs ≠ []) : Words cs := by
  refine ⟨wordy_of_word all, cs.getLast filled, List.getLast?_eq_some_getLast filled, ?_⟩
  exact all _ (List.getLast_mem filled)

/-- A phrase of words that are not empty. -/
def Spelt (words : List String) : Prop := Plain words ∧ words ≠ [] ∧ ∀ word ∈ words, word.toList ≠ []

instance (words : List String) : Decidable (Spelt words) := inferInstanceAs (Decidable (_ ∧ _))

theorem words_spelled (word : String) (cs after : List Char) (plain : ∀ l ∈ word.toList, (l.isUpper || l == '_') = true)
    (filled : word.toList ≠ []) (found : spelled word.toList cs = some after) : Cut Words cs after := by
  refine (cut_spelled _ _ _ plain found).mono fun taken holds => ?_
  obtain ⟨size, all⟩ := holds
  refine words_of_word all (List.ne_nil_of_length_pos ?_)
  rw [size]
  exact List.length_pos_iff.mpr filled

theorem cut_phrase (words : List String) (cs after : List Char) (spelt : Spelt words)
    (found : phrase words cs = some after) : Cut Words cs after := by
  induction words generalizing cs with
  | nil => exact absurd rfl spelt.2.1
  | cons word more ih =>
    obtain ⟨plain, _, letters⟩ := spelt
    obtain ⟨here, later⟩ := List.forall_mem_cons.mp plain
    obtain ⟨some, others⟩ := List.forall_mem_cons.mp letters
    cases more with
    | nil => exact words_spelled word cs after here some found
    | cons next more =>
      simp only [phrase, Option.bind_eq_bind, Option.bind_eq_some_iff] at found
      obtain ⟨mid, first, place, gap, rest⟩ := found
      have one := (cut_spelled _ _ _ here first).mono fun _ holds => wordy_of_word holds.2
      have two := (cut_blanks _ _ gap).mono fun _ holds => wordy_of_blank holds
      have three := two.trans (ih place ⟨later, List.cons_ne_nil _ _, others⟩ rest) fun _ _ => Wordy.append_words
      exact one.trans three fun _ _ => Wordy.append_words

/-- A phrase ends where a word ends. -/
theorem cut_firstPhrase (phrases : List (List String)) (cs after : List Char) (spelt : ∀ words ∈ phrases, Spelt words)
    (found : firstPhrase phrases cs = some after) : Cut Words cs after ∧ wordEnds after = true := by
  obtain ⟨words, member, ended⟩ := List.exists_of_findSome?_eq_some found
  obtain ⟨reached, ends⟩ := Option.filter_eq_some_iff.mp ended
  exact ⟨cut_phrase words cs after (spelt words member) reached, ends⟩

theorem cut_goCount (cs after : List Char) (found : goCount cs = some after) :
    Cut Words cs after ∧ wordEnds after = true := by
  unfold goCount at found
  split at found
  next c d rest go =>
    split at found
    next follows =>
      obtain ⟨reached, ends⟩ := Option.filter_eq_some_iff.mp found
      cases Option.some.inj reached
      rw [Bool.and_eq_true] at follows
      have word := (words_spelled "GO" _ _ (by decide) (by decide) go).mono fun _ words => words.1
      have gap : Cut Wordy (c :: d :: rest) (d :: rest) := ⟨[c], rfl, by simp [Wordy, isWordOrBlank, follows.1]⟩
      have count : Cut Words (d :: rest) (rest.dropWhile isDigit) := by
        refine ⟨d :: rest.takeWhile isDigit, ?_, words_of_word ?_ (List.cons_ne_nil _ _)⟩
        · rw [List.cons_append, List.takeWhile_append_dropWhile]
        · refine List.forall_mem_cons.mpr ⟨isWord_of_isDigit d follows.2, fun c member => ?_⟩
          exact isWord_of_isDigit c (List.mem_takeWhile_imp member)
      have two := gap.trans count fun _ _ => Wordy.append_words
      exact ⟨word.trans two fun _ _ => Wordy.append_words, ends⟩
    next => contradiction
  next => contradiction

/-- No single quote stands behind the words and white space in front. -/
def Zoneless (cs : List Char) : Prop := (cs.dropWhile isWordOrBlank).head? ≠ some '\x27'

theorem Cut.zoneless {cs after : List Char} (cut : Cut Wordy cs after) (zoneless : Zoneless cs) : Zoneless after := by
  obtain ⟨taken, rfl, wordy⟩ := cut
  rwa [Zoneless, List.dropWhile_append_of_pos wordy] at zoneless

theorem zoneless_cons {rest : List Char} : ¬ Zoneless ('\x27' :: rest) := by
  intro zoneless
  rw [Zoneless, List.dropWhile_cons_of_neg (by decide)] at zoneless
  exact zoneless rfl

theorem spelled_append (front back cs : List Char) :
    spelled (front ++ back) cs = (spelled front cs).bind (spelled back) := by
  induction front generalizing cs with
  | nil => rfl
  | cons l front ih =>
    cases cs with
    | nil => rfl
    | cons c rest =>
      simp only [List.cons_append, spelled]
      split
      · exact ih rest
      · rfl

/-- `WITH` in front of a quote. -/
theorem cut_with (cs after : List Char) (found : spelled "WITH'".toList cs = some after) :
    ∃ rest, Cut Words cs ('\x27' :: rest) := by
  have split : "WITH'".toList = "WITH".toList ++ ['\x27'] := by decide
  rw [split, spelled_append, Option.bind_eq_some_iff] at found
  obtain ⟨mid, front, quote⟩ := found
  have word := words_spelled "WITH" cs mid (by decide) (by decide) front
  cases mid with
  | nil => simp [spelled] at quote
  | cons c rest =>
    have letter : isLetter '\x27' c = true := by
      by_contra other
      simp [spelled, other] at quote
    have same : c = '\x27' := by
      have none : variants.lookup '\x27' = none := by decide
      simp only [isLetter, none, Option.getD_none, List.contains_nil, Bool.or_false, beq_iff_eq] at letter
      by_cases ascii : c.toNat < 128
      · exact forall_ascii (P := fun c => c.toUpper = '\x27' → c = '\x27') (by decide) c ascii letter
      · rwa [toUpper_of_foreign c ascii] at letter
    exact ⟨rest, same ▸ word⟩

theorem spelled_with (cs after : List Char) (zoneless : Zoneless cs) : spelled "WITH'".toList cs ≠ some after := by
  intro found
  obtain ⟨rest, word⟩ := cut_with cs after found
  exact zoneless_cons ((word.mono fun _ holds => holds.1).zoneless zoneless)

theorem orElse_eq_some {α : Type} {x y : Option α} {a : α} (found : (x <|> y) = some a) : x = some a ∨ y = some a := by
  cases x with
  | none => exact .inr found
  | some b => exact .inl found

theorem timeZone_of_zoneless (cs : List Char) (zoneless : Zoneless cs) : timeZone cs = none := by
  cases found : timeZone cs with
  | none => rfl
  | some after =>
    unfold timeZone at found
    simp only [Option.bind_eq_bind, Option.bind_eq_some_iff] at found
    obtain ⟨mid, words, place, gap, quoted⟩ := found
    have wordy : Cut Wordy cs mid := by
      rcases orElse_eq_some words with plain | marked
      · exact (cut_phrase _ _ _ (by decide) plain).mono fun _ words => words.1
      · simp only [phrase, Option.bind_eq_bind, Option.bind_eq_some_iff] at marked
        obtain ⟨behind, quote, _⟩ := marked
        exact absurd quote (spelled_with cs behind zoneless)
    have still := (wordy.trans ((cut_blanks _ _ gap).mono fun _ holds => wordy_of_blank holds)
      fun _ _ => Wordy.append).zoneless zoneless
    split at quoted
    next zone => exact absurd still zoneless_cons
    next => contradiction

/-- The kinds of tokens that words make. -/
def isWordKind : Kind → Bool
  | .keyword _ | .typeName | .comparison | .name | .operator => true
  | _ => false

theorem cut_phrases (table : List (Kind × List (List String))) (cs after : List Char) (kind : Kind)
    (spelt : ∀ entry ∈ table, isWordKind entry.1 = true ∧ ∀ words ∈ entry.2, Spelt words)
    (found : (table.findSome? fun (kind, ways) => (firstPhrase ways cs).map (kind, ·)) = some (kind, after)) :
    Cut Words cs after ∧ wordEnds after = true ∧ isWordKind kind = true := by
  obtain ⟨⟨k, ways⟩, member, hit⟩ := List.exists_of_findSome?_eq_some found
  obtain ⟨reached, first, same⟩ := Option.map_eq_some_iff.mp hit
  obtain ⟨good, each⟩ := spelt _ member
  cases same
  obtain ⟨cut, ends⟩ := cut_firstPhrase ways cs after each first
  exact ⟨cut, ends, good⟩

theorem cut_leadingPhrase (cs after : List Char) (kind : Kind) (unzoned : timeZone cs = none)
    (found : leadingPhrase cs = some (kind, after)) :
    Cut Words cs after ∧ wordEnds after = true ∧ isWordKind kind = true := by
  have single (ways : List (List String)) (k : Kind) (good : isWordKind k = true) (spelt : ∀ words ∈ ways, Spelt words)
      (hit : (firstPhrase ways cs).map (k, ·) = some (kind, after)) :
      Cut Words cs after ∧ wordEnds after = true ∧ isWordKind kind = true := by
    obtain ⟨reached, first, same⟩ := Option.map_eq_some_iff.mp hit
    cases same
    obtain ⟨cut, ends⟩ := cut_firstPhrase ways cs after spelt first
    exact ⟨cut, ends, good⟩
  unfold leadingPhrase at found
  rw [unzoned] at found
  rcases orElse_eq_some found with table | found
  · exact cut_phrases phrases cs after kind (by decide) table
  rcases orElse_eq_some found with go | found
  · obtain ⟨reached, first, same⟩ := Option.map_eq_some_iff.mp go
    cases same
    obtain ⟨cut, ends⟩ := cut_goCount cs after first
    exact ⟨cut, ends, rfl⟩
  rcases orElse_eq_some found with view | found
  · exact single _ _ rfl (by decide) view
  rcases orElse_eq_some found with zone | found
  · simp at zone
  rcases orElse_eq_some found with like | regexp
  · exact single _ _ rfl (by decide) like
  · exact single _ _ rfl (by decide) regexp

end SqlSchema.Token
