import Mathlib.Data.List.TakeWhile
import SqlSchema.Proofs.Text.Closing
import SqlSchema.Statement.Strip

/-! Scanning a text for quoted texts and for comments after a number sign, from left to right. Cutting the comments leaves
the other pieces of the scan, and they are the scan of what is left: nothing new is quoted, nothing that was quoted falls
apart, and no number sign stands outside quotes. -/
namespace SqlSchema.Statement
open Text

/-- A piece of a text: a text in quotes, a comment, or a single character. -/
inductive HashPiece where
  | quoted (text : List Char)
  | comment (text : List Char)
  | char (c : Char)
deriving DecidableEq, Repr

namespace HashPiece

def text : HashPiece → List Char
  | quoted text => text
  | comment text => text
  | char c => [c]

def isComment : HashPiece → Bool
  | comment _ => true
  | quoted _ | char _ => false

end HashPiece

def spared (pieces : List HashPiece) : List HashPiece := pieces.filter (!·.isComment)

/-- A text between two quotes of one kind. -/
def Enclosed (text : List Char) : Prop :=
  ∃ mark body, isHashQuote mark = true ∧ (hashQuoting mark).Body body ∧ text = mark :: (body ++ [mark])

/-- The scan of a text. A quoted text is taken where one begins, the longest if there are more; a comment goes up to the end
of its line; any other character stands alone, also a quote that nothing closes. -/
inductive Scans : List Char → List HashPiece → Prop where
  | nil : Scans [] []
  | quoted {text rest : List Char} {pieces : List HashPiece} (matched : Enclosed text)
    (longest : ∀ other, Enclosed other → other <+: text ++ rest → other.length ≤ text.length)
    (more : Scans rest pieces) : Scans (text ++ rest) (.quoted text :: pieces)
  | comment {text rest : List Char} {pieces : List HashPiece} (line : '\n' ∉ text)
    (ended : rest = [] ∨ rest.head? = some '\n') (more : Scans rest pieces) :
    Scans ('#' :: text ++ rest) (.comment ('#' :: text) :: pieces)
  | char {c : Char} {rest : List Char} {pieces : List HashPiece} (other : c ≠ '#')
    (unmatched : ∀ text, Enclosed text → ¬ text <+: c :: rest) (more : Scans rest pieces) :
    Scans (c :: rest) (.char c :: pieces)

theorem hashQuoting_plain {mark : Char} (quote : isHashQuote mark = true) : (hashQuoting mark).Plain := by
  simp only [isHashQuote, Bool.or_eq_true, beq_iff_eq] at quote
  rcases quote with (rfl | rfl) | rfl
  · exact ⟨rfl, .inr rfl, by decide⟩
  · exact ⟨rfl, .inr rfl, by decide⟩
  · exact ⟨rfl, .inl rfl, by decide⟩

section Scans
variable {c mark : Char} {rest inside after : List Char} {pieces : List HashPiece}

theorem enclosed_prefix_iff (quote : isHashQuote mark = true) (text : List Char) :
    Enclosed text ∧ text <+: mark :: rest ↔
      ∃ body, (hashQuoting mark).Body body ∧ body ++ [mark] <+: rest ∧ text = mark :: (body ++ [mark]) := by
  constructor
  · rintro ⟨⟨other, body, _, between, rfl⟩, front⟩
    obtain ⟨rfl, begins⟩ := List.cons_prefix_cons.mp front
    exact ⟨body, between, begins, rfl⟩
  · rintro ⟨body, between, front, rfl⟩
    exact ⟨⟨mark, body, quote, between, rfl⟩, List.cons_prefix_cons.mpr ⟨rfl, front⟩⟩

theorem not_enclosed (bare : isHashQuote c = false) (text : List Char) (matched : Enclosed text) :
    ¬ text <+: c :: rest := by
  obtain ⟨mark, body, quote, -, rfl⟩ := matched
  intro front
  obtain ⟨rfl, -⟩ := List.cons_prefix_cons.mp front
  rw [quote] at bare
  contradiction

theorem unmatched_iff (quote : isHashQuote mark = true) :
    (∀ text, Enclosed text → ¬ text <+: mark :: rest) ↔ (hashQuoting mark).close rest = none := by
  rw [(hashQuoting_plain quote).close_eq_none_iff]
  constructor
  · intro none body between front
    obtain ⟨matched, begins⟩ := (enclosed_prefix_iff quote _).mpr ⟨body, between, front, rfl⟩
    exact none _ matched begins
  · intro none text matched front
    obtain ⟨body, between, front, -⟩ := (enclosed_prefix_iff quote text).mp ⟨matched, front⟩
    exact none body between front

/-! What a scan begins with. -/

theorem scans_nil : Scans [] pieces ↔ pieces = [] := by
  constructor
  · intro scans
    generalize same : ([] : List Char) = cs at scans
    cases scans with
    | nil => rfl
    | quoted matched =>
      obtain ⟨mark, body, _, _, rfl⟩ := matched
      contradiction
    | comment => contradiction
    | char => contradiction
  · rintro rfl
    exact .nil

theorem quoted_append (mark : Char) (inside after : List Char) :
    mark :: (inside ++ [mark]) ++ after = mark :: (inside ++ mark :: after) := by
  simp

/-- The longest text in quotes ends where the quote is closed. -/
theorem longest_iff (quote : isHashQuote mark = true) (between : (hashQuoting mark).Body inside) :
    (∀ other, Enclosed other → other <+: mark :: (inside ++ mark :: after) → other.length ≤ inside.length + 2) ↔
      (hashQuoting mark).close (inside ++ mark :: after) = some (inside, after) := by
  rw [(hashQuoting_plain quote).close_eq_some_iff]
  constructor
  · intro longest
    refine ⟨between, rfl, fun body other front => ?_⟩
    obtain ⟨matched, begins⟩ := (enclosed_prefix_iff quote _).mpr ⟨body, other, front, rfl⟩
    simpa using longest _ matched begins
  · rintro ⟨-, -, longest⟩ text matched front
    obtain ⟨body, other, begins, rfl⟩ := (enclosed_prefix_iff quote text).mp ⟨matched, front⟩
    simpa using longest body other begins

theorem line_of_append {text : List Char} (line : '\n' ∉ text) (ended : rest = [] ∨ rest.head? = some '\n') :
    (text ++ rest).takeWhile (· != '\n') = text ∧ (text ++ rest).dropWhile (· != '\n') = rest := by
  have passed : ∀ c ∈ text, (c != '\n') = true := fun c member => bne_iff_ne.mpr fun same => line (same ▸ member)
  rw [List.takeWhile_append_of_pos passed, List.dropWhile_append_of_pos passed]
  rcases ended with rfl | feed
  · simp
  · obtain ⟨more, rfl⟩ := List.head?_eq_some_iff.mp feed
    simp

theorem dropLine_cases (cs : List Char) :
    cs.dropWhile (· != '\n') = [] ∨ ∃ more, cs.dropWhile (· != '\n') = '\n' :: more := by
  have head := List.head?_dropWhile_not (· != '\n') cs
  cases left : cs.dropWhile (· != '\n') with
  | nil => exact .inl rfl
  | cons c more =>
    rw [left] at head
    have feed : c = '\n' := by simpa using head
    exact .inr ⟨more, by rw [feed]⟩

/-- A scan begins with a text in quotes, with a comment, or with a single character. -/
theorem Scans.cons_cases (scans : Scans (c :: rest) pieces) :
    (∃ inside after more, isHashQuote c = true ∧ (hashQuoting c).close rest = some (inside, after) ∧
      pieces = .quoted (c :: (inside ++ [c])) :: more ∧ Scans after more) ∨
    (c = '#' ∧ ∃ more, pieces = .comment ('#' :: rest.takeWhile (· != '\n')) :: more ∧
      Scans (rest.dropWhile (· != '\n')) more) ∨
    (c ≠ '#' ∧ (isHashQuote c = true → (hashQuoting c).close rest = none) ∧
      ∃ more, pieces = .char c :: more ∧ Scans rest more) := by
  generalize same : c :: rest = cs at scans
  cases scans with
  | nil => contradiction
  | @quoted _ after more matched longest behind =>
    obtain ⟨mark, inside, quote, between, rfl⟩ := matched
    rw [quoted_append] at same longest
    obtain ⟨rfl, rfl⟩ := List.cons.inj same
    exact .inl ⟨inside, after, more, quote, (longest_iff quote between).mp (by simpa using longest), rfl, behind⟩
  | comment line ended behind =>
    obtain ⟨taken, left⟩ := line_of_append line ended
    rw [List.cons_append] at same
    obtain ⟨rfl, rfl⟩ := List.cons.inj same
    exact .inr (.inl ⟨rfl, _, by rw [taken], left.symm ▸ behind⟩)
  | char other unmatched behind =>
    obtain ⟨rfl, rfl⟩ := List.cons.inj same
    exact .inr (.inr ⟨other, fun quote => (unmatched_iff quote).mp unmatched, _, rfl, behind⟩)

theorem ne_hash_of_quote (quote : isHashQuote c = true) : c ≠ '#' := by
  rintro rfl
  exact absurd quote (by decide)

theorem scans_quoted (quote : isHashQuote mark = true) (closed : (hashQuoting mark).close rest = some (inside, after)) :
    Scans (mark :: rest) pieces ↔ ∃ more, pieces = .quoted (mark :: (inside ++ [mark])) :: more ∧ Scans after more := by
  constructor
  · intro scans
    rcases scans.cons_cases with ⟨_, _, more, _, found, first, behind⟩ | ⟨hash, _⟩ | ⟨_, open_, _⟩
    · cases closed.symm.trans found
      exact ⟨more, first, behind⟩
    · exact absurd hash (ne_hash_of_quote quote)
    · cases closed.symm.trans (open_ quote)
  · rintro ⟨more, rfl, behind⟩
    have between := ((hashQuoting_plain quote).close_eq_some_iff.mp closed).1
    have split : rest = inside ++ mark :: after := Quoting.close_append _ _ _ _ closed
    subst split
    have longest := (longest_iff quote between).mpr closed
    rw [← quoted_append] at longest ⊢
    exact .quoted ⟨mark, inside, quote, between, rfl⟩ (by simpa using longest) behind

theorem scans_open (quote : isHashQuote mark = true) (open_ : (hashQuoting mark).close rest = none) :
    Scans (mark :: rest) pieces ↔ ∃ more, pieces = .char mark :: more ∧ Scans rest more := by
  constructor
  · intro scans
    rcases scans.cons_cases with ⟨_, _, _, _, found, _⟩ | ⟨hash, _⟩ | ⟨_, _, found⟩
    · cases open_.symm.trans found
    · exact absurd hash (ne_hash_of_quote quote)
    · exact found
  · rintro ⟨more, rfl, behind⟩
    exact .char (ne_hash_of_quote quote) ((unmatched_iff quote).mpr open_) behind

theorem scans_hash : Scans ('#' :: rest) pieces ↔
    ∃ more, pieces = .comment ('#' :: rest.takeWhile (· != '\n')) :: more ∧ Scans (rest.dropWhile (· != '\n')) more := by
  constructor
  · intro scans
    rcases scans.cons_cases with ⟨_, _, _, quote, _⟩ | ⟨_, found⟩ | ⟨other, _⟩
    · exact absurd rfl (ne_hash_of_quote quote)
    · exact found
    · exact absurd rfl other
  · rintro ⟨more, rfl, behind⟩
    have line : '\n' ∉ rest.takeWhile (· != '\n') := fun member =>
      absurd (List.mem_takeWhile_imp member) (by decide)
    have ended : rest.dropWhile (· != '\n') = [] ∨ (rest.dropWhile (· != '\n')).head? = some '\n' :=
      (dropLine_cases rest).imp_right fun ⟨more, feed⟩ => by rw [feed, List.head?_cons]
    have scans := Scans.comment line ended behind
    rwa [List.cons_append, List.takeWhile_append_dropWhile] at scans

theorem scans_char (bare : isHashQuote c = false) (other : c ≠ '#') :
    Scans (c :: rest) pieces ↔ ∃ more, pieces = .char c :: more ∧ Scans rest more := by
  constructor
  · intro scans
    rcases scans.cons_cases with ⟨_, _, _, quote, _⟩ | ⟨hash, _⟩ | ⟨_, _, found⟩
    · rw [quote] at bare
      contradiction
    · exact absurd hash other
    · exact found
  · rintro ⟨more, rfl, behind⟩
    exact .char other (not_enclosed bare) behind

end Scans

/-- Every text has one scan. -/
theorem exists_unique_scan (cs : List Char) : ∃ pieces, ∀ other, Scans cs other ↔ other = pieces := by
  have step {R : List HashPiece → Prop} {rest : List Char} (first : HashPiece)
      (scans : ∀ pieces, R pieces ↔ ∃ more, pieces = first :: more ∧ Scans rest more)
      (behind : ∃ pieces, ∀ other, Scans rest other ↔ other = pieces) : ∃ pieces, ∀ other, R other ↔ other = pieces := by
    obtain ⟨pieces, only⟩ := behind
    exact ⟨first :: pieces, fun other => by simp [scans, only]⟩
  fun_induction cutHashes cs with
  | case1 => exact ⟨[], fun _ => scans_nil⟩
  | case2 c rest quote inside after closed ih => exact step _ (fun _ => scans_quoted quote closed) ih
  | case3 c rest quote closed ih => exact step _ (fun _ => scans_open quote closed) ih
  | case4 rest quote ih => exact step _ (fun _ => scans_hash) ih
  | case5 c rest quote other ih => exact step _ (fun _ => scans_char (by simpa using quote) other) ih

/-! What is cut changes nothing about the quotes that stay open. -/

/-- A quote that nothing closes is closed by nothing either when comments are cut behind it. -/
theorem open_cutHashes {mark : Char} (quote : isHashQuote mark = true) (cs : List Char) (guarded : Bool)
    (stays : (hashQuoting mark).Open guarded cs) : (hashQuoting mark).Open guarded (cutHashes cs) := by
  fun_induction cutHashes cs generalizing guarded with
  | case1 => exact stays
  | case2 c rest _ inside after closed ih =>
    have split : rest = inside ++ c :: after := Quoting.close_append _ _ _ _ closed
    have front : c :: rest = (c :: (inside ++ [c])) ++ after := by rw [split, quoted_append]
    have back : c :: inside ++ c :: cutHashes after = (c :: (inside ++ [c])) ++ cutHashes after := by simp
    rw [front] at stays
    rw [back]
    exact stays.of_behind _ ih
  | case3 c rest _ _ ih | case5 c rest _ _ ih => exact Quoting.Open.of_behind [c] ih stays
  | case4 rest _ ih =>
    apply ih
    rcases dropLine_cases rest with none | ⟨more, feed⟩
    · rw [none]
      trivial
    · have whole : '#' :: rest = ('#' :: rest.takeWhile (· != '\n')) ++ '\n' :: more := by
        rw [← feed, List.cons_append, List.takeWhile_append_dropWhile]
      rw [whole] at stays
      rw [feed]
      exact (hashQuoting_plain quote).open_feed _ stays guarded

theorem close_cutHashes {mark : Char} (quote : isHashQuote mark = true) {cs : List Char}
    (open_ : (hashQuoting mark).close cs = none) : (hashQuoting mark).close (cutHashes cs) = none :=
  (hashQuoting_plain quote).open_iff.mp
    (open_cutHashes quote cs false ((hashQuoting_plain quote).open_iff.mpr open_))

theorem cutHashes_open {mark : Char} {rest : List Char} (quote : isHashQuote mark = true)
    (open_ : (hashQuoting mark).close rest = none) : cutHashes (mark :: rest) = mark :: cutHashes rest := by
  rw [cutHashes, if_pos quote]
  split
  · simp_all
  · rfl

theorem cutHashes_hash (rest : List Char) : cutHashes ('#' :: rest) = cutHashes (rest.dropWhile (· != '\n')) := by
  rw [cutHashes, if_neg (by decide), if_pos rfl]

theorem head?_cutHashes {c : Char} (rest : List Char) (other : c ≠ '#') : (cutHashes (c :: rest)).head? = some c := by
  rw [cutHashes]
  split
  · split <;> rfl
  · rfl

/-- A text in quotes ends where it ended when comments are cut behind it. -/
theorem not_extends_cutHashes {mark : Char} (quote : isHashQuote mark = true) {cs : List Char}
    (ended : ¬ (hashQuoting mark).Extends cs) : ¬ (hashQuoting mark).Extends (cutHashes cs) := by
  rintro ⟨more, begins, goes⟩
  have head : (cutHashes cs).head? = some mark := by rw [begins]; rfl
  match cs with
  | [] =>
    rw [cutHashes] at head
    contradiction
  | c :: rest =>
    by_cases hash : c = '#'
    · subst hash
      rw [cutHashes_hash] at head
      rcases dropLine_cases rest with none | ⟨line, feed⟩
      · rw [none, cutHashes] at head
        contradiction
      · rw [feed, head?_cutHashes line (by decide)] at head
        exact (hashQuoting_plain quote).mark.2 (Option.some.inj head).symm
    · obtain rfl : c = mark := Option.some.inj ((head?_cutHashes rest hash).symm.trans head)
      have open_ : (hashQuoting c).close rest = none := by
        rw [← Option.not_isSome_iff_eq_none]
        exact fun goes => ended ⟨rest, rfl, goes⟩
      rw [cutHashes_open quote open_] at begins
      obtain rfl : cutHashes rest = more := (List.cons.inj begins).2
      rw [close_cutHashes quote open_] at goes
      contradiction

/-- Cutting comments leaves the other pieces of the scan, and these are the scan of what is left. -/
theorem Scans.cutHashes {cs : List Char} {pieces : List HashPiece} (scans : Scans cs pieces) :
    cutHashes cs = (spared pieces).flatMap HashPiece.text ∧ Scans (Statement.cutHashes cs) (spared pieces) := by
  fun_induction Statement.cutHashes cs generalizing pieces with
  | case1 =>
    obtain rfl := scans_nil.mp scans
    exact ⟨rfl, .nil⟩
  | case2 c rest quote inside after closed ih =>
    obtain ⟨more, rfl, behind⟩ := (scans_quoted quote closed).mp scans
    obtain ⟨left, again⟩ := ih behind
    obtain ⟨between, ended⟩ := (hashQuoting_plain quote).body_of_close closed
    have found := (hashQuoting_plain quote).close_of_body between (not_extends_cutHashes quote ended)
    refine ⟨?_, (scans_quoted quote found).mpr ⟨_, rfl, again⟩⟩
    rw [left, List.cons_append, ← quoted_append]
    rfl
  | case3 c rest quote closed ih =>
    obtain ⟨more, rfl, behind⟩ := (scans_open quote closed).mp scans
    obtain ⟨left, again⟩ := ih behind
    exact ⟨congrArg (c :: ·) left, (scans_open quote (close_cutHashes quote closed)).mpr ⟨_, rfl, again⟩⟩
  | case4 rest quote ih =>
    obtain ⟨more, rfl, behind⟩ := scans_hash.mp scans
    obtain ⟨left, again⟩ := ih behind
    exact ⟨left, again⟩
  | case5 c rest quote other ih =>
    obtain ⟨more, rfl, behind⟩ := (scans_char (by simpa using quote) other).mp scans
    obtain ⟨left, again⟩ := ih behind
    exact ⟨congrArg (c :: ·) left, (scans_char (by simpa using quote) other).mpr ⟨_, rfl, again⟩⟩

/-- Outside quotes and comments there is no number sign. -/
theorem Scans.quoted_of_hash {cs : List Char} {pieces : List HashPiece} (scans : Scans cs pieces) {piece : HashPiece}
    (member : piece ∈ spared pieces) (hash : '#' ∈ piece.text) : ∃ text, piece = .quoted text ∧ Enclosed text := by
  induction scans with
  | nil => contradiction
  | @quoted text _ _ matched _ _ ih =>
    rcases List.mem_cons.mp member with rfl | later
    · exact ⟨text, rfl, matched⟩
    · exact ih later
  | comment _ _ _ ih => exact ih member
  | char other _ _ ih =>
    rcases List.mem_cons.mp member with rfl | later
    · exact absurd (List.mem_singleton.mp hash).symm other
    · exact ih later

/-- A text has one scan. What is left without its comments is made up of the other pieces, each as it was, and these are the
one scan of what is left. There every number sign stands in quotes, and nothing more is cut. -/
theorem cutHashes_settled (cs : List Char) :
    ∃ pieces, (∀ other, Scans cs other ↔ other = pieces) ∧
      cutHashes cs = (spared pieces).flatMap HashPiece.text ∧
      (∀ again, Scans (cutHashes cs) again ↔ again = spared pieces) ∧
      (∀ piece ∈ spared pieces, '#' ∈ piece.text → ∃ text, piece = .quoted text ∧ Enclosed text) ∧
      cutHashes (cutHashes cs) = cutHashes cs := by
  obtain ⟨pieces, only⟩ := exists_unique_scan cs
  obtain ⟨again, one⟩ := exists_unique_scan (cutHashes cs)
  obtain ⟨left, scans⟩ := ((only pieces).mpr rfl).cutHashes
  obtain rfl : spared pieces = again := (one _).mp scans
  have same : spared (spared pieces) = spared pieces := by simp [spared]
  refine ⟨pieces, only, left, one, fun piece member hash => ((only pieces).mpr rfl).quoted_of_hash member hash, ?_⟩
  rw [scans.cutHashes.1, same, left]

/-- A number sign in quotes, a quote in a comment, and a quote that nothing closes. -/
theorem cutHashes_settled_unclosed :
    let text := "'#'#'\n\x22".toList
    let quoted := HashPiece.quoted "'#'".toList
    Scans text [quoted, .comment "#'".toList, .char '\n', .char '\x22'] ∧
      Scans (cutHashes text) [quoted, .char '\n', .char '\x22'] ∧ (∃ text, quoted = .quoted text ∧ Enclosed text) ∧
      cutHashes (cutHashes text) = cutHashes text ∧ cutHashes text ≠ text := by
  intro text quoted
  have scans : Scans text [quoted, .comment "#'".toList, .char '\n', .char '\x22'] :=
    (scans_quoted (by decide) (by decide : _ = some (['#'], "#'\n\x22".toList))).mpr ⟨_, rfl, scans_hash.mpr ⟨_, rfl,
      (scans_char (by decide) (by decide)).mpr ⟨_, rfl, (scans_open (by decide) (by decide)).mpr ⟨_, rfl, .nil⟩⟩⟩⟩
  obtain ⟨pieces, only, left, again, quotes, same⟩ := cutHashes_settled text
  obtain rfl := (only _).mp scans
  refine ⟨scans, (again _).mpr rfl, quotes quoted (List.mem_cons_self ..) (by decide), same, ?_⟩
  rw [left]
  decide

end SqlSchema.Statement
