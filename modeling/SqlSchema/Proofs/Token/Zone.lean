import Mathlib.Data.List.Infix
import SqlSchema.Proofs.Token.Shape

/-! Names of time zones. The words in front of one make one token with the quoted name behind them; a text that does not
end with these words leaves the quotes behind it to tokens of their own. -/
namespace SqlSchema.Token
open Text Statement

/-! What is cut off behind a phrase. -/

theorem length_spelled {word cs after : List Char} (found : spelled word cs = some after) :
    cs.length = word.length + after.length := by
  induction word generalizing cs with
  | nil =>
    cases Option.some.inj found
    simp
  | cons l word ih =>
    cases cs with
    | nil => simp [spelled] at found
    | cons c cs =>
      rw [spelled, Option.ite_none_right_eq_some] at found
      rw [List.length_cons, List.length_cons, ih found.2]
      omega

/-- Nothing changes when what stands behind a word is cut off. -/
theorem spelled_cut {word cs after more : List Char} (found : spelled word (cs ++ more) = some (after ++ more)) :
    spelled word cs = some after := by
  induction word generalizing cs with
  | nil =>
    rw [spelled, Option.some_inj] at found
    rw [List.append_cancel_right found]
    rfl
  | cons l word ih =>
    cases cs with
    | nil =>
      have size := length_spelled found
      simp only [List.nil_append, List.length_append, List.length_cons] at size
      omega
    | cons c cs =>
      rw [List.cons_append, spelled, Option.ite_none_right_eq_some] at found
      rw [spelled, if_pos found.1]
      exact ih found.2

theorem suffix_spelled {word cs after : List Char} (found : spelled word cs = some after) : after <:+ cs := by
  induction word generalizing cs with
  | nil =>
    cases Option.some.inj found
    exact List.suffix_rfl
  | cons l word ih =>
    cases cs with
    | nil => simp [spelled] at found
    | cons c cs =>
      rw [spelled, Option.ite_none_right_eq_some] at found
      exact (ih found.2).trans (List.suffix_cons ..)

theorem suffix_blanks {cs after : List Char} (found : blanks cs = some after) :
    after <:+ cs ∧ after.length < cs.length := by
  cases cs with
  | nil => simp [blanks] at found
  | cons c cs =>
    rw [blanks, Option.ite_none_right_eq_some, Option.some_inj] at found
    have inside : after <:+ cs := found.2 ▸ List.dropWhile_suffix _
    exact ⟨inside.trans (List.suffix_cons ..), Nat.lt_succ_of_le inside.length_le⟩

theorem trimLeft_cut {cs after more : List Char} (found : trimLeft (cs ++ more) = after ++ more) :
    trimLeft cs = after := by
  induction cs with
  | nil =>
    have size := (List.dropWhile_suffix isBlank (l := more)).length_le
    rw [List.nil_append, trimLeft] at found
    rw [found, List.length_append] at size
    rw [List.eq_nil_of_length_eq_zero (by omega : after.length = 0)]
    rfl
  | cons c cs ih =>
    rw [List.cons_append, trimLeft, List.dropWhile_cons] at found
    rw [trimLeft, List.dropWhile_cons]
    split at found
    next blank =>
      rw [if_pos blank]
      exact ih found
    next seen =>
      rw [if_neg seen]
      exact List.append_cancel_right found

theorem blanks_cut {cs after more : List Char} (found : blanks (cs ++ more) = some (after ++ more)) :
    blanks cs = some after := by
  cases cs with
  | nil =>
    have size := (suffix_blanks found).2
    simp only [List.nil_append, List.length_append] at size
    omega
  | cons c cs =>
    rw [List.cons_append, blanks, Option.ite_none_right_eq_some, Option.some_inj] at found
    rw [blanks, if_pos found.1, trimLeft_cut found.2]

theorem suffix_phrase {words : List String} {cs after : List Char} (found : phrase words cs = some after) :
    after <:+ cs := by
  fun_induction phrase words cs with
  | case1 => exact Option.some.inj found ▸ List.suffix_rfl
  | case2 => exact suffix_spelled found
  | case3 cs word more _ ih =>
    simp only [Option.bind_eq_bind, Option.bind_eq_some_iff] at found
    obtain ⟨mid, first, place, gap, rest⟩ := found
    exact (ih _ rest).trans ((suffix_blanks gap).1.trans (suffix_spelled first))

theorem phrase_cut {words : List String} {cs after more : List Char}
    (found : phrase words (cs ++ more) = some (after ++ more)) : phrase words cs = some after := by
  induction words generalizing cs with
  | nil =>
    rw [phrase, Option.some_inj] at found
    rw [List.append_cancel_right found]
    rfl
  | cons word others ih =>
    cases others with
    | nil => exact spelled_cut found
    | cons next others =>
      simp only [phrase, Option.bind_eq_bind, Option.bind_eq_some_iff] at found ⊢
      obtain ⟨mid, first, place, gap, rest⟩ := found
      obtain ⟨front, split⟩ := suffix_phrase rest
      obtain ⟨blank, whole⟩ := (suffix_blanks gap).1
      rw [← List.append_assoc] at split
      rw [← split, ← List.append_assoc] at whole
      rw [← split] at gap rest
      rw [← whole] at first gap
      exact ⟨_, spelled_cut first, _, blanks_cut gap, ih rest⟩

/-! Quotes behind words. -/

/-- The text ends with the words in front of a time zone. -/
def EndsInZone (cs : List Char) : Prop :=
  ∃ words, words <:+ cs ∧ (phrase ["AT", "TIME", "ZONE"] words).bind blanks = some []

instance (cs : List Char) : Decidable (EndsInZone cs) :=
  decidable_of_iff (∃ words ∈ cs.tails, (phrase ["AT", "TIME", "ZONE"] words).bind blanks = some [])
    (by simp only [EndsInZone, List.mem_tails])

theorem EndsInZone.of_suffix {cs part : List Char} (zone : EndsInZone part) (inside : part <:+ cs) : EndsInZone cs := by
  obtain ⟨words, behind, found⟩ := zone
  exact ⟨words, behind.trans inside, found⟩

/-- Where the first quote stands in a text. -/
theorem eq_of_quote {cs rest taken after : List Char} (unquoted : ∀ c ∈ cs, isHashQuote c = false)
    (quote : ∀ c, rest.head? = some c → isHashQuote c = true) (wordy : Wordy taken)
    (split : cs ++ rest = taken ++ '\x27' :: after) : cs = taken ∧ rest = '\x27' :: after := by
  rcases List.append_eq_append_iff.mp split with ⟨more, rfl, same⟩ | ⟨more, rfl, same⟩
  · cases more with
    | nil => exact ⟨(List.append_nil _).symm, same⟩
    | cons c more =>
      have open_ := quote c (same ▸ rfl)
      rw [isHashQuote_of_wordy (wordy c (by simp))] at open_
      contradiction
  · cases more with
    | nil => exact ⟨List.append_nil _, same.symm⟩
    | cons c more =>
      have plain := unquoted c (by simp)
      rw [← (List.cons.inj same).1] at plain
      contradiction

theorem timeZone_eq_none {cs rest : List Char} (unquoted : ∀ c ∈ cs, isHashQuote c = false)
    (quote : ∀ c, rest.head? = some c → isHashQuote c = true)
    (unzoned : rest.head? = some '\x27' → ¬ EndsInZone cs) (apart : cs.getLast?.any isWord = false) :
    timeZone (cs ++ rest) = none := by
  cases found : timeZone (cs ++ rest) with
  | none => rfl
  | some left =>
    unfold timeZone at found
    simp only [Option.bind_eq_bind, Option.bind_eq_some_iff] at found
    obtain ⟨mid, words, place, gap, quoted⟩ := found
    split at quoted
    next zone =>
      rcases orElse_eq_some words with plain | marked
      · have wordy := (cut_phrase _ _ _ (by decide) plain).mono fun _ words => words.1
        obtain ⟨taken, split, all⟩ := wordy.trans ((cut_blanks _ _ gap).mono fun _ holds => wordy_of_blank holds)
          fun _ _ => Wordy.append
        obtain ⟨_, rfl⟩ := eq_of_quote unquoted quote all split
        obtain ⟨blank, rfl⟩ := (suffix_blanks gap).1
        have last : blanks blank = some [] := blanks_cut gap
        exact absurd ⟨cs, List.suffix_rfl, by rw [phrase_cut plain, Option.bind_some, last]⟩ (unzoned rfl)
      · simp only [phrase, Option.bind_eq_bind, Option.bind_eq_some_iff] at marked
        obtain ⟨behind, front, _⟩ := marked
        obtain ⟨more, taken, split, all, c, last, word⟩ := cut_with _ _ front
        rw [(eq_of_quote unquoted quote all split).1, last] at apart
        simp [word] at apart
    next => contradiction

end SqlSchema.Token
