import SqlSchema.Proofs.Reader.Similar

/-! Rules that match. At places with similar texts behind them both read, and values that look the same, or both fail.
Each way of making a rule from others keeps this, so that two grammars only have to be compared part by part. -/
namespace SqlSchema.Reader
open Text Cursor

theorem Gap.bare {cs : List Char} (gap : Gap cs) : Bare cs := by
  intro c member
  have blank := gap c member
  simp only [isGap, Bool.or_eq_true, beq_iff_eq, or_assoc] at blank
  rcases blank with rfl | rfl | rfl | rfl <;> decide

theorem Bare.append {front more : List Char} (first : Bare front) (second : Bare more) : Bare (front ++ more) :=
  List.forall_mem_append.mpr ⟨first, second⟩

/-- Nothing is quoted in similar texts. -/
theorem Similar.bare {k : Comparison} {cs ds : List Char} (similar : Similar k cs ds) : Bare cs := by
  induction similar with
  | nil => exact List.forall_mem_nil _
  | cons _ usual _ _ ih => exact List.forall_mem_cons.mpr ⟨usual.1, ih⟩
  | @gap c d cs ds first _ _ ih =>
    have blank : Gap (c :: cs.takeWhile isGap) :=
      List.forall_mem_cons.mpr ⟨first, fun c member => List.mem_takeWhile_imp member⟩
    have whole := blank.bare.append ih
    rwa [List.cons_append, List.takeWhile_append_dropWhile] at whole

theorem Cursor.Alike.bare {k : Comparison} {c c' : Cursor} (alike : Alike k c c') : Bare c.rest := by
  obtain ⟨gap, split, blank⟩ := c.gap_skipGap
  rw [split]
  exact blank.bare.append (Similar.bare alike.rest)

namespace Rule
variable {k : Comparison} {least : Nat} {α β σ τ : Type} {see : α → σ} {seeing : β → τ}

theorem origin_le (r : Rule α) (c : Cursor) : (r.origin c).rest.length ≤ c.rest.length := by
  unfold origin
  split
  · exact c.skipGap_le
  · exact le_rfl

/-- Two rules at two places. If they read, they pass over so many characters at least. -/
inductive Ends (k : Comparison) (least : Nat) (see : α → σ) (r r' : Rule α) (c c' : Cursor) : Prop
  | both {a b : α} {after last : Cursor} (first : r.Reads c a after) (second : r'.Reads c' b last)
    (same : see a = see b)
    (alike : Alike k after last) (here : after.rest.length + least ≤ c.rest.length)
    (there : last.rest.length + least ≤ c'.rest.length)
  | neither (first : r.Fails c) (second : r'.Fails c')

/-- The rules end alike wherever the texts do. -/
def Matches (k : Comparison) (least : Nat) (see : α → σ) (r r' : Rule α) : Prop :=
  ∀ c c', Alike k c c' → Ends k least see r r' c c'

/-- Wherever the first recogniser takes a piece, the second one takes one that looks the same. -/
def Cuts (k : Comparison) (see : α → σ) (recognise recognise' : List Char → Option (α × Nat)) : Prop :=
  ∀ cs ds a n, Similar k cs ds → recognise cs = some (a, n) →
    ∃ b, recognise' ds = some (b, n) ∧ see a = see b ∧ Step k n cs ds

namespace Matches
variable {r r' : Rule α}

theorem swap (matched : Matches k least see r r') : Matches k.swap least see r' r := by
  intro c c' alike
  cases matched c' c (Alike.swap alike) with
  | both first second same alike here there => exact .both second first same.symm alike.swap there here
  | neither first second => exact .neither second first

theorem loose (matched : Matches k least see r r') : Matches k 0 see r r' := by
  intro c c' alike
  cases matched c c' alike with
  | both first second same alike here there => exact .both first second same alike (by omega) (by omega)
  | neither first second => exact .neither first second

theorem pure {a b : α} (same : see a = see b) : Matches k 0 see (Pure.pure a) (Pure.pure b) := fun _ _ alike =>
  .both ((reads_pure ..).mpr ⟨rfl, rfl⟩) ((reads_pure ..).mpr ⟨rfl, rfl⟩) same alike le_rfl le_rfl

theorem bind {next next' : α → Rule β} (first : Matches k least see r r')
    (second : ∀ a b, see a = see b → Matches k 0 seeing (next a) (next' b)) :
    Matches k least seeing (r >>= next) (r' >>= next') := by
  intro c c' alike
  cases first c c' alike with
  | neither one two => exact .neither ((fails_bind ..).mpr (.inl one)) ((fails_bind ..).mpr (.inl two))
  | @both a b after last one two same alike here there =>
    cases second a b same after last alike with
    | neither more other =>
      exact .neither ((fails_bind ..).mpr (.inr ⟨a, after, one, more⟩))
        ((fails_bind ..).mpr (.inr ⟨b, last, two, other⟩))
    | both more other same alike near far =>
      exact .both ((reads_bind ..).mpr ⟨a, after, one, more⟩) ((reads_bind ..).mpr ⟨b, last, two, other⟩) same alike
        (by omega) (by omega)

theorem map {f g : α → β} (matched : Matches k least see r r')
    (made : ∀ a b, see a = see b → seeing (f a) = seeing (g b)) :
    Matches k least seeing (do return f (← r)) (do return g (← r')) :=
  matched.bind fun a b same => .pure (made a b same)

theorem optional (matched : Matches k least see r r') :
    Matches k 0 (Option.map see) (Rule.optional r) (Rule.optional r') := by
  intro c c' alike
  cases matched c c' alike with
  | both first second same alike here there =>
    exact .both ((reads_optional ..).mpr (.inl ⟨_, rfl, first⟩)) ((reads_optional ..).mpr (.inl ⟨_, rfl, second⟩))
      (congrArg some same) alike (by omega) (by omega)
  | neither first second =>
    refine .both ((reads_optional ..).mpr (.inr ⟨rfl, first, rfl⟩)) ((reads_optional ..).mpr (.inr ⟨rfl, second, rfl⟩))
      rfl ?_ (r.origin_le c) (r'.origin_le c')
    rw [Alike, skipGap_origin, skipGap_origin]
    exact alike

theorem choice {name name' : Shape} {rules rules' : List (Rule α)}
    (each : List.Forall₂ (Matches k least see) rules rules') :
    Matches k least see (Rule.choice name rules) (Rule.choice name' rules') := by
  intro c c' alike
  suffices (∃ a b after last, FirstReads rules c a after ∧ FirstReads rules' c' b last ∧ see a = see b ∧
      Alike k after last ∧ after.rest.length + least ≤ c.rest.length ∧ last.rest.length + least ≤ c'.rest.length) ∨
      (∀ r ∈ rules, r.Fails c) ∧ ∀ r ∈ rules', r.Fails c' by
    rcases this with ⟨a, b, after, last, first, second, same, alike, here, there⟩ | ⟨first, second⟩
    · exact .both ((reads_choice ..).mpr first) ((reads_choice ..).mpr second) same alike here there
    · exact .neither ((fails_choice ..).mpr first) ((fails_choice ..).mpr second)
  induction each with
  | nil => exact .inr ⟨List.forall_mem_nil _, List.forall_mem_nil _⟩
  | cons matched _ ih =>
    cases matched c c' alike with
    | both first second same alike here there =>
      exact .inl ⟨_, _, _, _, .inl first, .inl second, same, alike, here, there⟩
    | neither one two =>
      rcases ih with ⟨a, b, after, last, first, second, rest⟩ | ⟨first, second⟩
      · exact .inl ⟨a, b, after, last, .inr ⟨one, first⟩, .inr ⟨two, second⟩, rest⟩
      · exact .inr ⟨List.forall_mem_cons.mpr ⟨one, first⟩, List.forall_mem_cons.mpr ⟨two, second⟩⟩

theorem choice_self {name : Shape} {rules : List (Rule α)} (each : ∀ r ∈ rules, Matches k least see r r) :
    Matches k least see (Rule.choice name rules) (Rule.choice name rules) := choice (List.forall₂_same.mpr each)

theorem without {name name' : Shape} (matched : Matches k least see r r') :
    Matches k 0 (id : Unit → Unit) (Rule.without name r) (Rule.without name' r') := by
  intro c c' alike
  cases matched c c' alike with
  | both first second same _ _ _ =>
    refine .neither ?_ ?_ <;> rw [fails_iff] <;> intro _ _ found
    · exact first.not_fails ((reads_without ..).mp found).1
    · exact second.not_fails ((reads_without ..).mp found).1
  | neither first second =>
    exact .both ((reads_without name r c c ()).mpr ⟨first, rfl⟩) ((reads_without name' r' c' c' ()).mpr ⟨second, rfl⟩)
      rfl alike le_rfl le_rfl

/-- Repetitions go on side by side as long as each of them takes something. -/
theorem repeatFrom (matched : Matches k 1 see r r') (c c' : Cursor) (alike : Alike k c c') :
    (Rule.repeatFrom r c).1.map see = (Rule.repeatFrom r' c').1.map see ∧
      Alike k (Rule.repeatFrom r c).2 (Rule.repeatFrom r' c').2 ∧
      (Rule.repeatFrom r c).2.rest.length ≤ c.rest.length ∧ (Rule.repeatFrom r' c').2.rest.length ≤ c'.rest.length := by
  fun_induction Rule.repeatFrom r c generalizing c' with
  | case1 c a after found shorter more last repeated ih =>
    cases matched c c' alike with
    | neither first _ => exact absurd first (Reads.not_fails found)
    | both first second same alike here there =>
      obtain ⟨rfl, rfl⟩ := Reads.unique first found
      rw [Rule.repeatFrom, second]
      dsimp only
      rw [if_pos (by omega)]
      obtain ⟨all, ends, near, far⟩ := ih _ alike
      rw [repeated] at all ends near
      dsimp only at near ⊢
      exact ⟨by rw [List.map_cons, List.map_cons, same, all], ends, by omega, by omega⟩
  | case2 c a after found stuck =>
    cases matched c c' alike with
    | neither first _ => exact absurd first (Reads.not_fails found)
    | both first _ _ _ here _ =>
      obtain ⟨rfl, rfl⟩ := Reads.unique first found
      omega
  | case3 c failure found =>
    cases matched c c' alike with
    | both first _ _ _ _ _ => exact absurd ⟨failure, found⟩ first.not_fails
    | neither _ second =>
      obtain ⟨other, there⟩ := second
      rw [Rule.repeatFrom, there]
      exact ⟨rfl, alike, le_rfl, le_rfl⟩

theorem many (matched : Matches k 1 see r r') : Matches k 0 (List.map see) (Rule.many r) (Rule.many r') := by
  intro c c' alike
  have start : Alike k ((Rule.many r).origin c) ((Rule.many r').origin c') := by
    rw [Alike, skipGap_origin, skipGap_origin]
    exact alike
  obtain ⟨all, ends, here, there⟩ := matched.repeatFrom _ _ start
  exact .both rfl rfl all ends (here.trans (origin_le ..)) (there.trans (origin_le ..))

/-- Rules that only read what is quoted. -/
theorem of_nothing (first : r.Passes fun _ _ => False) (second : r'.Passes fun _ _ => False) :
    Matches k least see r r' := by
  have fails {r : Rule α} (nothing : r.Passes fun _ _ => False) (c : Cursor) (bare : Bare c.rest) : r.Fails c := by
    rw [fails_iff]
    intro a after found
    obtain ⟨_, _, never⟩ := nothing c a after bare found
    exact never
  intro c c' alike
  exact .neither (fails first c alike.bare) (fails second c' alike.swap.bare)

/-! The smallest rules. -/

theorem recognised {name name' : Shape} {recognise recognise' : List Char → Option (α × Nat)}
    (forth : Cuts k see recognise recognise') (back : Cuts k.swap see recognise' recognise) :
    Matches k 0 see (Rule.recognised name recognise) (Rule.recognised name' recognise') := by
  have shorter (c : Cursor) (n : Nat) : (c.skipGap.advance n).rest.length ≤ c.rest.length := by
    have := c.skipGap_le
    simp only [Cursor.advance, List.length_drop] at this ⊢
    omega
  intro c c' alike
  cases first : recognise c.skipGap.rest with
  | some found =>
    obtain ⟨a, n⟩ := found
    obtain ⟨b, second, same, step⟩ := forth _ _ a n alike.rest first
    exact .both ((reads_recognised ..).mpr ⟨n, first, rfl⟩) ((reads_recognised ..).mpr ⟨n, second, rfl⟩) same
      (Close.advance alike step).alike (shorter c n) (shorter c' n)
  | none =>
    refine .neither ?_ ?_ <;> rw [fails_iff] <;> intro a last found <;>
      obtain ⟨n, found, _⟩ := (reads_recognised ..).mp found
    · rw [first] at found
      contradiction
    · obtain ⟨b, other, _⟩ := back _ _ a n alike.swap.rest found
      rw [first] at other
      contradiction

theorem listOf {comma comma' : Rule Unit} (parted : Matches k 1 (id : Unit → Unit) comma comma')
    (matched : Matches k 0 see r r') : Matches k 0 (List.map see) (Rule.listOf comma r) (Rule.listOf comma' r') := by
  refine matched.bind fun a b same => ?_
  refine (many (parted.bind fun _ _ _ => matched)).bind fun more others all => ?_
  exact .pure (by rw [List.map_cons, List.map_cons, same, all])

/-- It is enough to compare from one side if the rules are the same for every comparison. -/
theorem of_either {r : Rule α} (each : ∀ (k : Comparison) (c c' after : Cursor) (a : α), Alike k c c' →
    r.Reads c a after → ∃ b last, r.Reads c' b last ∧ see a = see b ∧ Alike k after last ∧
      after.rest.length + least ≤ c.rest.length) :
    Matches k least see r r := by
  intro c c' alike
  rcases reads_or_fails r c with ⟨a, after, found⟩ | failed
  · obtain ⟨b, last, other, same, ends, here⟩ := each k c c' after a alike found
    obtain ⟨_, _, _, _, _, there⟩ := each k.swap c' c last b alike.swap other
    exact .both found other same ends here there
  · refine .neither failed ((fails_iff ..).mpr fun b last other => ?_)
    obtain ⟨a, after, found, _⟩ := each k.swap c' c last b alike.swap other
    exact found.not_fails failed

theorem mark (sign : Char) (visible : Visible (· == sign)) :
    Matches k 1 (id : Unit → Unit) (Rule.mark sign) (Rule.mark sign) := by
  refine of_either fun k c c' after _ alike found => ?_
  obtain ⟨rest, here, rfl⟩ := (reads_mark ..).mp found
  have similar := alike.rest
  rw [here] at similar
  obtain ⟨d, more, there, same, seen, later⟩ := similar.uncons visible (beq_self_eq_true sign)
  obtain rfl := eq_of_beq same
  have step : Step k 1 c.skipGap.rest c'.skipGap.rest := by
    rw [here, there]
    exact .cons seen (.zero later)
  refine ⟨(), _, (reads_mark ..).mpr ⟨more, there, rfl⟩, rfl, (Close.advance alike step).alike, ?_⟩
  have shorter := c.skipGap_le
  simp only [Cursor.advance, here, List.drop_succ_cons, List.drop_zero, List.length_cons] at shorter ⊢
  exact shorter

theorem parenthesized {r r' : Rule α} (matched : Matches k least see r r') :
    Matches k 0 see (Rule.parenthesized r) (Rule.parenthesized r') := by
  refine (mark '(' (visible_beq _ (by decide) (by decide))).loose.bind fun _ _ _ => ?_
  refine matched.loose.bind fun a b same => ?_
  exact (mark ')' (visible_beq _ (by decide) (by decide))).loose.bind fun _ _ _ => .pure same

theorem comma : Matches k 1 (id : Unit → Unit) Rule.comma Rule.comma :=
  mark ',' (visible_beq _ (by decide) (by decide))

end Matches

/-- Words of ASCII letters and underscores, such as every keyword is made of. -/
def Seamless (word : String) : Prop := word.toList ≠ [] ∧ word.toList.all isWordStart = true

instance (word : String) : Decidable (Seamless word) := inferInstanceAs (Decidable (_ ∧ _))

theorem mem_capitals_of_gap (c : Char) (gap : isGap c = true) : c ∈ capitals c := by
  simp only [isGap, Bool.or_eq_true, beq_iff_eq, or_assoc] at gap
  rcases gap with rfl | rfl | rfl | rfl <;> decide

namespace Seamless
variable {word : String}

theorem upper_ne_nil (seamless : Seamless word) : upper word.toList ≠ [] := by
  have longer := length_le_upper word.toList
  have some := List.length_pos_iff.mpr seamless.1
  exact List.length_pos_iff.mp (by omega)

theorem isGap_upper (seamless : Seamless word) : ∀ c ∈ upper word.toList, isGap c = false := by
  intro c member
  obtain ⟨letter, inside, found⟩ := List.mem_flatMap.mp member
  have start := List.all_eq_true.mp seamless.2 letter inside
  have ascii := ascii_of_isPlainWord letter (isPlainWord_of_isWordStart letter start)
  rw [capitals_of_ascii letter ascii, List.mem_singleton] at found
  rw [found]
  exact forall_ascii (P := fun c => isWordStart c = true → isGap c.toUpper = false) (by decide) letter ascii
    start

end Seamless

namespace Matches

theorem takes_keyword (word : String) (seamless : Seamless word) :
    Matches k 1 (id : Unit → Unit) (Rule.keyword word) (Rule.keyword word) := by
  refine of_either fun k c c' after _ alike found => ?_
  obtain ⟨same, before, behind, rfl⟩ := (reads_keyword ..).mp found
  have step : Step k word.length c.skipGap.rest c'.skipGap.rest := by
    refine .of_visible alike.rest fun d member => ?_
    cases gap : isGap d with
    | false => rfl
    | true =>
      have inside : d ∈ upper word.toList := same ▸ List.mem_flatMap.mpr ⟨d, member, mem_capitals_of_gap d gap⟩
      rw [seamless.isGap_upper d inside] at gap
      contradiction
  have filled : c.skipGap.rest ≠ [] := by
    intro none
    rw [none, List.take_nil] at same
    exact seamless.upper_ne_nil same.symm
  refine ⟨(), _, (reads_keyword ..).mpr ⟨?_, ?_, ?_, rfl⟩, rfl, (Close.advance alike step).alike, ?_⟩
  · rw [← upper_of_caseless k.keeps step.taken, same]
  · rw [← alike.previous filled, before]
  · rw [← step.rest.head visible_touchesKeyword, behind]
  · have size : 0 < word.length := by
      rw [← String.length_toList, List.length_pos_iff]
      exact seamless.1
    have shorter := c.skipGap.advance_shorter _ size filled
    have := c.skipGap_le
    omega

theorem keyword (word : String) (seamless : Seamless word) :
    Matches k 0 (id : Unit → Unit) (Rule.keyword word) (Rule.keyword word) := (takes_keyword word seamless).loose

theorem takes_keywords (words : List String) (some : words ≠ []) (seamless : ∀ word ∈ words, Seamless word) :
    Matches k 1 (id : Unit → Unit) (Rule.keywords words) (Rule.keywords words) := by
  induction words with
  | nil => contradiction
  | cons word more ih =>
    rw [List.forall_mem_cons] at seamless
    cases more with
    | nil => exact takes_keyword word seamless.1
    | cons next more =>
      exact (takes_keyword word seamless.1).bind fun _ _ _ => (ih (by simp) seamless.2).loose

/-- Rules that read keywords in front of something else. -/
theorem constant {value : α} {words : List String} (some : words ≠ []) (seamless : ∀ word ∈ words, Seamless word) :
    Matches k 1 see (Rule.constant value words) (Rule.constant value words) :=
  (takes_keywords words some seamless).bind fun _ _ _ => .pure rfl

theorem endOfText : Matches k 0 (id : Unit → Unit) Rule.endOfText Rule.endOfText := by
  refine of_either fun k c c' after _ alike found => ?_
  obtain ⟨ended, rfl⟩ := (reads_endOfText ..).mp found
  have none : c.skipGap.rest = [] := by
    by_contra more
    have := alike.first.inside more
    have := List.length_pos_iff.mpr more
    omega
  have other := alike.second.fits
  rw [Cursor.Fits, alike.rest.isEmpty.mp none] at other
  exact ⟨(), _, (reads_endOfText ..).mpr ⟨other, rfl⟩, rfl, alike_skipGap.mpr alike, c.skipGap_le⟩

/-- Whole texts are read alike, or not at all. -/
theorem readAll {r r' : Rule α} (matched : Matches k least see r r') {cs ds : List Char} (similar : Similar k cs ds) :
    (∃ a b, r.readAll cs = .ok a ∧ r'.readAll ds = .ok b ∧ see a = see b) ∨
      (∃ failure, r.readAll cs = .error failure) ∧ ∃ failure, r'.readAll ds = .error failure := by
  have alike : Alike k (start cs) (start ds) :=
    Close.alike ⟨similar, fun _ => rfl, exact_start cs, exact_start ds⟩
  have whole := (matched.bind fun a b same => endOfText.bind fun _ _ _ => .pure same) (start cs) (start ds) alike
  unfold Rule.readAll
  dsimp only
  cases whole with
  | @both a b _ _ first second same _ _ _ =>
    rw [Reads] at first second
    exact .inl ⟨a, b, by rw [first]; rfl, by rw [second]; rfl, same⟩
  | neither first second =>
    obtain ⟨one, here⟩ := first
    obtain ⟨two, there⟩ := second
    exact .inr ⟨⟨one, by rw [here]; rfl⟩, two, by rw [there]; rfl⟩

end Matches
end Rule
end SqlSchema.Reader
