import SqlSchema.Proofs.Statement.Commented

/-! Texts without comments. Where nothing opens one, stripping takes nothing away but white space, in both dialects. -/
namespace SqlSchema.Statement
open Text Token

/-- Nothing in the text is quoted or opens a comment. -/
structure Uncommented (cs : List Char) : Prop where
  plain : ∀ c ∈ cs, c ∉ enclosing ∧ c ≠ '#'
  closed : Closed cs

instance (cs : List Char) : Decidable (Uncommented cs) :=
  decidable_of_iff ((∀ c ∈ cs, c ∉ enclosing ∧ c ≠ '#') ∧ Closed cs)
    ⟨fun both => ⟨both.1, both.2⟩, fun whole => ⟨whole.plain, whole.closed⟩⟩

theorem Uncommented.part {cs part : List Char} (whole : Uncommented cs) (inside : part <:+: cs) : Uncommented part :=
  ⟨fun c member => whole.plain c (inside.subset member),
    fun opener known found => whole.closed opener known (found.trans inside)⟩

theorem Uncommented.free {cs : List Char} (whole : Uncommented cs) : '#' ∉ cs :=
  fun member => (whole.plain '#' member).2 rfl

theorem opensComment_single (c : Char) : opensComment [c] = false := by
  unfold opensComment
  split <;> simp_all

theorem Uncommented.calm {cs : List Char} (whole : Uncommented cs) : Calm false cs (visible cs) := by
  have last : Calm (hashedBy false cs) [] [] := .nil
  have calm := Calm.front (fun c member => (whole.plain c member).1) whole.closed
    (fun c _ => opensComment_single c) (fun _ _ opens => absurd opens Bool.false_ne_true) last
  rwa [List.append_nil, List.append_nil, (seen_of_free cs whole.free).1] at calm

theorem plain_of_isLineEnd (c : Char) (ends : isLineEnd c = true) : c ≠ '#' ∧ isHashQuote c = false := by
  simp only [isLineEnd, Bool.or_eq_true, beq_iff_eq] at ends
  rcases ends with rfl | rfl <;> decide

/-- Nothing that can be seen is lost or new, and nothing is quoted. -/
theorem Uncommented.strip {cs plain : List Char} (whole : Uncommented cs) {d : Dialect}
    (stripped : Statement.strip d cs = .ok plain) : visible plain = visible cs ∧ Unquoted plain := by
  have kept : ∀ c ∈ cs, c ≠ '#' ∧ isHashQuote c = false := fun c member =>
    ⟨(whole.plain c member).2, isHashQuote_of_plain (whole.plain c member).1⟩
  have unquoted : ∀ c ∈ plain, c ≠ '#' ∧ isHashQuote c = false :=
    forall_strip (by decide) plain_of_isLineEnd stripped kept
  refine ⟨?_, fun c member => (unquoted c member).2⟩
  have shallow : ¬ TooDeep cs := by
    intro deep
    rw [(strip_eq_error_iff d cs _).mpr ⟨deep, rfl⟩] at stripped
    cases stripped
  obtain ⟨text, last, found, shows, _⟩ := whole.calm.shows shallow
  have free : '#' ∉ text := fun member =>
    (forall_plainText (by decide) plain_of_isLineEnd found kept '#' member).1 rfl
  obtain ⟨_, same, rfl⟩ := (Attempt.map_eq_ok ..).mp stripped
  cases found.symm.trans same
  rw [cutHashes_eq_self text shows.unquoted free, ite_self, visible_trim, ← (seen_of_free text free).1, shows.seen]

end SqlSchema.Statement
