import Mathlib.Data.Option.Basic
import SqlSchema.Proofs.Reader.Matching
import SqlSchema.Proofs.Reader.Passed
import SqlSchema.Proofs.Reader.Seen

/-! Words and literals match. In similar texts the same pieces are taken for names, numbers and placeholders, in both
dialects if the texts have nothing in which the dialects differ. -/
namespace SqlSchema.Reader
open Text Cursor Comparison

variable {k : Comparison}

/-! Pieces of text. -/

theorem Step.resize {m n : Nat} {cs ds : List Char} (step : Step k m cs ds) (same : m = n) : Step k n cs ds :=
  same ▸ step

/-- Where the piece is in the first text, it is in the second one, and looks the same. -/
def CutsSize (k : Comparison) (size? other? : List Char → Option Nat) : Prop :=
  ∀ cs ds n, Similar k cs ds → size? cs = some n → other? ds = some n ∧ Step k n cs ds

def isSign (c : Char) : Bool := c == '+' || c == '-'

theorem signSize_cons (c : Char) (cs : List Char) : signSize (c :: cs) = if isSign c then 1 else 0 := by
  unfold signSize isSign
  split <;> simp_all

theorem visible_isSign : Visible isSign := visible_of_ascii (by decide)

theorem step_signSize {cs ds : List Char} (similar : Similar k cs ds) :
    signSize cs = signSize ds ∧ Step k (signSize cs) cs ds := by
  cases similar with
  | nil => exact ⟨rfl, .zero .nil⟩
  | @cons c d cs ds solid usual same rest =>
    rw [signSize_cons, signSize_cons, ← Comparison.same visible_isSign.caseless same]
    split
    · exact ⟨rfl, .cons same (.zero rest)⟩
    · exact ⟨rfl, .zero (.cons solid usual same rest)⟩
  | @gap c d cs ds first second rest =>
    rw [signSize_cons, signSize_cons, visible_isSign.apart c first, visible_isSign.apart d second]
    exact ⟨rfl, .zero (.gap first second rest)⟩

theorem step_digitCount {cs ds : List Char} (similar : Similar k cs ds) :
    digitCount cs = digitCount ds ∧ Step k (digitCount cs) cs ds := similar.takeWhile visible_isDigit

theorem endsWord_of_similar {cs ds : List Char} (similar : Similar k cs ds) : endsWord cs = endsWord ds := by
  rw [endsWord, endsWord, similar.head visible_isWord]

theorem visible_point : Visible (· == '.') := visible_beq _ (by decide) (by decide)

theorem cutsSize_integer : CutsSize k integerSize? integerSize? := by
  intro cs ds n similar found
  obtain ⟨sign, front⟩ := step_signSize similar
  obtain ⟨count, digits⟩ := step_digitCount front.rest
  have whole := front.add digits
  have point := whole.rest.head visible_point
  have pointed (cs : List Char) : (cs.head? != some '.') = !cs.head?.any (· == '.') := by
    cases cs with
    | nil => rfl
    | cons c cs => simp [bne]
  unfold integerSize? at found ⊢
  dsimp only at found ⊢
  rw [pointed] at found ⊢
  rw [← sign, ← count, ← endsWord_of_similar whole.rest, ← point]
  split at found
  next holds =>
    cases found
    exact ⟨if_pos holds, whole⟩
  next => contradiction

theorem cutsSize_exponent : CutsSize k exponentSize? exponentSize? := by
  intro cs ds n similar found
  unfold exponentSize? at found
  split at found
  next e rest =>
    split at found
    next letter =>
      have visible : Visible fun c => decide (c = 'e' ∨ c = 'E') := visible_of_ascii (by decide)
      obtain ⟨d, more, rfl, other, same, later⟩ := similar.uncons visible (decide_eq_true letter)
      obtain ⟨sign, front⟩ := step_signSize later
      obtain ⟨count, digits⟩ := step_digitCount front.rest
      unfold exponentSize?
      dsimp only at found ⊢
      rw [if_pos (of_decide_eq_true other), ← sign, ← count]
      split at found
      next holds =>
        cases found
        refine ⟨if_pos holds, ?_⟩
        rw [Nat.add_assoc, Nat.add_comm]
        exact .cons same (front.add digits)
      next => contradiction
    next => contradiction
  next => contradiction

theorem CutsSize.getD {size? : List Char → Option Nat} (cuts : ∀ k, CutsSize k size? size?) {cs ds : List Char}
    (similar : Similar k cs ds) : (size? cs).getD 0 = (size? ds).getD 0 ∧ Step k ((size? cs).getD 0) cs ds := by
  cases first : size? cs with
  | some n =>
    obtain ⟨second, step⟩ := cuts k cs ds n similar first
    rw [second]
    exact ⟨rfl, step⟩
  | none =>
    cases second : size? ds with
    | none => exact ⟨rfl, .zero similar⟩
    | some n =>
      rw [(cuts k.swap ds cs n similar.swap second).1] at first
      contradiction

theorem cutsSize_float : CutsSize k floatSize? floatSize? := by
  intro cs ds n similar found
  obtain ⟨sign, front⟩ := step_signSize similar
  obtain ⟨count, digits⟩ := step_digitCount front.rest
  have whole := front.add digits
  have later := digits.rest
  unfold floatSize? at found ⊢
  dsimp only at found ⊢
  rw [← sign, ← count]
  split at found
  next rest behind =>
    rw [behind] at later
    obtain ⟨d, more, same, point, seen, after⟩ := later.uncons visible_point rfl
    obtain rfl := eq_of_beq point
    obtain ⟨size, fraction⟩ := step_digitCount after
    have mantissa : Step k _ cs ds := whole.add (n := 1 + digitCount rest) (by
      rw [← List.drop_drop, ← List.drop_drop, behind, same]
      exact (Step.cons seen fraction).resize (Nat.add_comm ..))
    rw [← Nat.add_assoc] at mantissa
    obtain ⟨power, exponent⟩ := CutsSize.getD (fun _ => cutsSize_exponent) mantissa.rest
    have all := mantissa.add exponent
    split at found
    · contradiction
    next some =>
      split at found
      next ended =>
        cases found
        simp only [same, ← size, ← power, ← endsWord_of_similar all.rest]
        exact ⟨by rw [if_neg some, if_pos ended], all⟩
      next => contradiction
  next rest other =>
    split
    next more behind =>
      rw [behind] at later
      obtain ⟨c, rest, same, point, _⟩ := later.swap.uncons visible_point rfl
      obtain rfl := eq_of_beq point
      exact absurd same (other rest)
    next =>
      split at found
      next power first =>
        obtain ⟨second, exponent⟩ := cutsSize_exponent _ _ power later first
        have all := whole.add (n := power) (by rwa [← List.drop_drop, ← List.drop_drop])
        rw [second]
        dsimp only
        rw [← endsWord_of_similar all.rest]
        split at found
        next holds =>
          cases found
          exact ⟨if_pos holds, all⟩
        next => contradiction
      next => contradiction

theorem cutsSize_hexNumber : CutsSize k hexNumberSize? hexNumberSize? := by
  have zero : Visible (· == '0') := visible_beq _ (by decide) (by decide)
  have visible : Visible fun c => decide (c = 'x' ∨ c = 'X') := visible_of_ascii (by decide)
  intro cs ds n similar found
  unfold hexNumberSize? at found
  split at found
  next x rest =>
    dsimp only at found
    split at found
    next holds =>
      cases found
      obtain ⟨letter, some, ended⟩ := holds
      obtain ⟨d, more, rfl, fixed, first, later⟩ := similar.uncons zero rfl
      obtain rfl := eq_of_beq fixed
      obtain ⟨d, more, rfl, other, second, after⟩ := later.uncons visible (decide_eq_true letter)
      obtain ⟨size, digits⟩ := after.takeWhile visible_isHex
      have ends := endsWord_of_similar digits.rest
      refine ⟨?_, (Step.cons first (.cons second digits)).resize (by omega)⟩
      simp only [hexNumberSize?]
      rw [← size, ← ends, if_pos ⟨of_decide_eq_true other, some, ended⟩]
    next => contradiction
  next => contradiction

theorem cutsSize_namedPlaceholder : CutsSize k namedPlaceholder? namedPlaceholder? := by
  have colon : Visible (· == ':') := visible_beq _ (by decide) (by decide)
  intro cs ds n similar found
  unfold namedPlaceholder? at found
  split at found
  next c rest =>
    split at found
    next letter =>
      cases found
      obtain ⟨d, more, rfl, fixed, first, later⟩ := similar.uncons colon rfl
      obtain rfl := eq_of_beq fixed
      obtain ⟨d, more, rfl, other, second, after⟩ := later.uncons visible_isWordStart letter
      obtain ⟨size, word⟩ := after.takeWhile visible_isWord
      refine ⟨?_, (Step.cons first (.cons second word)).resize (by omega)⟩
      simp only [namedPlaceholder?]
      rw [← size, if_pos other]
    next => contradiction
  next => contradiction

theorem cutsSize_numberedPlaceholder : CutsSize k numberedPlaceholder? numberedPlaceholder? := by
  have dollar : Visible (· == '$') := visible_beq _ (by decide) (by decide)
  intro cs ds n similar found
  unfold numberedPlaceholder? at found
  split at found
  next rest =>
    dsimp only at found
    split at found
    next some =>
      cases found
      obtain ⟨d, more, rfl, fixed, first, later⟩ := similar.uncons dollar rfl
      obtain rfl := eq_of_beq fixed
      obtain ⟨size, digits⟩ := step_digitCount later
      refine ⟨?_, (Step.cons first digits).resize (Nat.add_comm ..)⟩
      simp only [numberedPlaceholder?]
      rw [← size, if_pos some]
    next => contradiction
  next => contradiction

/-- What placeholders begin with is special to a dialect. -/
theorem parting_of_placeholder {d : Dialect} {cs : List Char} {n : Nat} (found : placeholderSize? d cs = some n) :
    ∃ c rest, cs = c :: rest ∧ c ∈ parting := by
  have named (found : namedPlaceholder? cs = some n) : ∃ c rest, cs = c :: rest ∧ c ∈ parting := by
    unfold namedPlaceholder? at found
    split at found
    · exact ⟨_, _, rfl, by decide⟩
    · contradiction
  cases d with
  | postgres =>
    rcases (Option.orElse_eq_some _ _ _).mp found with numbered | ⟨_, other⟩
    · unfold numberedPlaceholder? at numbered
      split at numbered
      · exact ⟨_, _, rfl, by decide⟩
      · contradiction
    · exact named other
  | mysql =>
    rcases (Option.orElse_eq_some _ _ _).mp found with first | ⟨_, other⟩
    · exact named first
    · simp only [Option.ite_none_right_eq_some] at other
      obtain ⟨rest, rfl⟩ := List.head?_eq_some_iff.mp other.1
      exact ⟨_, _, rfl, by decide⟩

theorem CutsSize.orElse {first second : List Char → Option Nat} (one : ∀ k, CutsSize k first first)
    (two : CutsSize k second second) :
    CutsSize k (fun cs => first cs <|> second cs) (fun cs => first cs <|> second cs) := by
  intro cs ds n similar found
  rcases (Option.orElse_eq_some _ _ _).mp found with here | ⟨none, here⟩
  · obtain ⟨there, step⟩ := one k cs ds n similar here
    exact ⟨(Option.orElse_eq_some _ _ _).mpr (.inl there), step⟩
  · obtain ⟨there, step⟩ := two cs ds n similar here
    refine ⟨(Option.orElse_eq_some _ _ _).mpr (.inr ⟨?_, there⟩), step⟩
    cases other : first ds with
    | none => rfl
    | some m =>
      rw [(one k.swap ds cs m similar.swap other).1] at none
      contradiction

theorem cutsSize_placeholder : CutsSize k (placeholderSize? k.first) (placeholderSize? k.second) := by
  have question : Visible (· == '?') := visible_beq _ (by decide) (by decide)
  by_cases same : k.first = k.second
  · rw [same]
    cases k.second with
    | postgres => exact .orElse (fun _ => cutsSize_numberedPlaceholder) cutsSize_namedPlaceholder
    | mysql =>
      refine .orElse (fun _ => cutsSize_namedPlaceholder) fun cs ds n similar found => ?_
      simp only [Option.ite_none_right_eq_some, Option.some.injEq] at found
      obtain ⟨first, rfl⟩ := found
      obtain ⟨rest, rfl⟩ := List.head?_eq_some_iff.mp first
      obtain ⟨d, more, rfl, fixed, seen, later⟩ := similar.uncons question rfl
      obtain rfl := eq_of_beq fixed
      exact ⟨if_pos rfl, .cons seen (.zero later)⟩
  · intro cs ds n similar found
    obtain ⟨c, rest, rfl, member⟩ := parting_of_placeholder found
    cases similar with
    | cons _ usual _ _ => exact absurd member (usual.2 same)
    | gap first _ _ =>
      have visible : ∀ c ∈ parting, isGap c = false := by decide
      rw [visible c member] at first
      contradiction

/-! Words and literals. -/

namespace Rule

theorem cuts_wordOf {part : Char → Bool} (visible : Visible part) : Cuts k k.text (wordOf part) (wordOf part) := by
  intro cs ds word n similar found
  unfold wordOf at found
  split at found
  next c rest =>
    split at found
    next letter =>
      cases found
      obtain ⟨d, more, rfl, other, same, after⟩ := similar.uncons visible_isWordStart letter
      obtain ⟨size, inside⟩ := after.takeWhile visible
      have taken := inside.taken
      rw [← List.prefix_iff_eq_take.mp (List.takeWhile_prefix part), size,
        ← List.prefix_iff_eq_take.mp (List.takeWhile_prefix part)] at taken
      refine ⟨String.ofList (d :: more.takeWhile part), ?_, ?_, .cons same inside⟩
      · simp only [wordOf]
        rw [if_pos other, List.length_cons, List.length_cons, size]
      · rw [text_ofList, text_ofList, List.map_cons, List.map_cons, same, taken]
    next => contradiction
  next => contradiction

theorem matches_wordOf (name : Shape) {part : Char → Bool} (visible : Visible part) :
    Matches k 0 k.text (recognised name (wordOf part)) (recognised name (wordOf part)) :=
  .recognised (cuts_wordOf visible) (cuts_wordOf visible)

theorem matches_word : Matches k 0 k.text word word := matches_wordOf _ visible_isPlainWord

theorem matches_quoted {q q' : Quoting} (mark : q.mark ∈ quotes) (mark' : q'.mark ∈ quotes) :
    Matches k 0 k.text (quoted q) (quoted q') := .of_nothing (passes_quoted mark _) (passes_quoted mark' _)

theorem matches_identifier : Matches k 0 k.text (identifier k.first) (identifier k.second) := by
  refine .choice (.cons ?_ (.cons ?_ .nil))
  · exact matches_quoted (by cases k.first <;> decide) (by cases k.second <;> decide)
  · exact matches_wordOf _ visible_isNamePart

theorem text_getD {a b : Option String} (same : a.map k.text = b.map k.text) (other : String) :
    k.text (a.getD other) = k.text (b.getD other) := by
  rw [← Option.getD_map k.text, same, Option.getD_map]

theorem matches_point : Matches k 0 (id : Unit → Unit) (mark '.') (mark '.') :=
  (Matches.mark '.' visible_point).loose

theorem matches_table : Matches k 0 k.table (table k.first) (table k.second) := by
  have names : Matches k 0 (fun names => (k.text names.1, k.text names.2)) (tableName k.first)
      (tableName k.second) := by
    refine .bind (.optional (matches_identifier.bind fun a b same => matches_point.bind fun _ _ _ => .pure same)) ?_
    intro qualifier other front
    refine matches_identifier.map fun name another same => ?_
    rw [same, text_getD front]
  refine names.bind fun a b same => .pure ?_
  obtain ⟨qualifiers, names⟩ := Prod.mk.inj same
  rw [Comparison.table, Comparison.table, qualifiers, names]

theorem matches_string : Matches k 0 k.text (string k.first) (string k.second) :=
  .of_nothing (passes_string k.first _) (passes_string k.second _)

theorem matches_stringLiteral : Matches k 0 k.literal (stringLiteral k.first) (stringLiteral k.second) :=
  matches_string.map fun a b same => by rw [Comparison.literal, Comparison.literal, same]

theorem cuts_sized {size? other? : List Char → Option Nat} (kind : Tree.LiteralKind) (cuts : CutsSize k size? other?) :
    Cuts k k.literal (fun cs => (size? cs).map fun n => (⟨kind, String.ofList (cs.take n)⟩, n))
      (fun cs => (other? cs).map fun n => (⟨kind, String.ofList (cs.take n)⟩, n)) := by
  intro cs ds l n similar found
  obtain ⟨m, here, same⟩ := Option.map_eq_some_iff.mp found
  cases same
  obtain ⟨there, step⟩ := cuts cs ds n similar here
  refine ⟨_, Option.map_eq_some_iff.mpr ⟨n, there, rfl⟩, ?_, step⟩
  rw [Comparison.literal, Comparison.literal, text_ofList, text_ofList, step.taken]

theorem matches_sized {size? : List Char → Option Nat} (kind : Tree.LiteralKind) (name : String)
    (cuts : ∀ k, CutsSize k size? size?) : Matches k 0 k.literal (sized kind name size?) (sized kind name size?) :=
  .recognised (cuts_sized kind (cuts k)) (cuts_sized kind (cuts k.swap))

theorem matches_integer : Matches k 0 k.literal integer integer := matches_sized _ _ fun _ => cutsSize_integer

theorem matches_lettered (kind : Tree.LiteralKind) (name : String) (letter : Char) (isPart : Char → Bool) :
    Matches k 0 k.literal (lettered kind name letter isPart) (lettered kind name letter isPart) :=
  .of_nothing (passes_lettered _ _ _ _ _) (passes_lettered _ _ _ _ _)

theorem matches_literal : Matches k 0 k.literal (literal k.first) (literal k.second) := by
  refine .choice (.cons ?_ (.cons ?_ (.cons ?_ (.cons ?_ (.cons ?_ (.cons ?_ (.cons ?_ .nil)))))))
  · exact matches_lettered _ _ _ _
  · exact matches_lettered _ _ _ _
  · exact matches_sized _ _ fun _ => cutsSize_hexNumber
  · exact matches_sized _ _ fun _ => cutsSize_float
  · exact matches_integer
  · exact matches_stringLiteral
  · exact .recognised (cuts_sized _ cutsSize_placeholder) (cuts_sized _ cutsSize_placeholder)

theorem matches_currentTimestamp : Matches k 0 (id : Unit → Unit) currentTimestamp currentTimestamp := by
  refine (Matches.keyword "CURRENT_TIMESTAMP" (by decide)).bind fun _ _ _ => ?_
  exact (Matches.optional (.parenthesized (.optional matches_integer))).bind fun _ _ _ => .pure rfl

theorem matches_wordValue (text : String) {r : Rule Unit} (matched : Matches k 0 (id : Unit → Unit) r r) :
    Matches k 0 k.literal (wordValue text r) (wordValue text r) := matched.bind fun _ _ _ => .pure rfl

theorem matches_value : Matches k 0 k.literal (value k.first) (value k.second) := by
  refine .choice (.cons matches_literal (.cons ?_ (.cons ?_ (.cons ?_ (.cons ?_ .nil)))))
  · exact matches_wordValue _ (.keyword "NULL" (by decide))
  · exact matches_wordValue _ matches_currentTimestamp
  · exact matches_wordValue _ (.keyword "TRUE" (by decide))
  · exact matches_wordValue _ (.keyword "FALSE" (by decide))

end Rule
end SqlSchema.Reader
