import SqlSchema.Proofs.Text.Quoted

/-! What stands between quotes, said without the search for the closing quote: characters other than the mark, doubled
marks, and pairs of a backslash and any character where the backslash protects. The search finds the longest such text, and
it finds nothing where every mark is protected. -/
namespace SqlSchema.Text.Quoting

/-- Line ends are ordinary characters, and a backslash protects either nothing or whatever follows it. -/
structure Plain (q : Quoting) : Prop where
  anyLine : q.oneLine = false
  escape : q.escape = .nothing ∨ q.escape = .any
  mark : q.mark ≠ '\\' ∧ q.mark ≠ '\n'

/-- The character protects the next one. -/
def Protects (q : Quoting) (c : Char) : Prop := c = '\\' ∧ q.escape = .any

instance (q : Quoting) (c : Char) : Decidable (q.Protects c) := inferInstanceAs (Decidable (_ ∧ _))

/-- What can stand between two marks. -/
inductive Body (q : Quoting) : List Char → Prop where
  | nil : Body q []
  | char {c : Char} {cs : List Char} (other : c ≠ q.mark) (bare : ¬ q.Protects c) (more : Body q cs) : Body q (c :: cs)
  | pair {c d : Char} {cs : List Char} (protects : q.Protects c) (more : Body q cs) : Body q (c :: d :: cs)
  | twice {cs : List Char} (more : Body q cs) : Body q (q.mark :: q.mark :: cs)

theorem Body.append {q : Quoting} {front more : List Char} (first : Body q front) (second : Body q more) :
    Body q (front ++ more) := by
  induction first with
  | nil => exact second
  | char other bare _ ih => exact .char other bare ih
  | pair protects _ ih => exact .pair protects ih
  | twice _ ih => exact .twice ih

/-- A mark and a text behind it that would be closed, so that the mark closes nothing. -/
def Extends (q : Quoting) (cs : List Char) : Prop := ∃ rest, cs = q.mark :: rest ∧ (q.close rest).isSome

section Close
variable {q : Quoting} (plain : q.Plain) {c d : Char} {cs inside after body : List Char}
include plain

theorem Plain.close_bare (other : c ≠ q.mark) (bare : ¬ q.Protects c) :
    q.close (c :: cs) = (q.close cs).map fun (inside, after) => (c :: inside, after) := by
  cases cs with
  | nil => simp [close, other]
  | cons d cs =>
    have free : ¬ (c = '\\' ∧ q.escape = .any) := bare
    rcases plain.escape with escape | escape <;> simp_all [close, plain.anyLine]

theorem Plain.close_pair (protects : q.Protects c) :
    q.close (c :: d :: cs) = (q.close cs).map fun (inside, after) => (c :: d :: inside, after) := by
  obtain ⟨rfl, escape⟩ := protects
  simp [close, plain.mark.1.symm, plain.anyLine, escape]

omit plain in
theorem close_twice (q : Quoting) (cs : List Char) :
    q.close (q.mark :: q.mark :: cs) = match q.close cs with
      | some (inside, after) => some (q.mark :: q.mark :: inside, after)
      | none => some ([], q.mark :: cs) := by
  cases found : q.close cs <;> simp [close, found]

/-- The text in front of the closing mark is a body, and the mark does not go on. -/
theorem Plain.body_of_close (closed : q.close cs = some (inside, after)) : Body q inside ∧ ¬ q.Extends after := by
  fun_induction Quoting.close q cs generalizing inside after with
  | case1 | case3 => contradiction
  | case2 =>
    cases closed
    refine ⟨.nil, ?_⟩
    rintro ⟨_, same, -⟩
    cases same
  | case4 rest inside after found ih =>
    cases closed
    obtain ⟨body, ended⟩ := ih found
    exact ⟨.twice body, ended⟩
  | case5 rest open_ ih =>
    cases closed
    refine ⟨.nil, ?_⟩
    rintro ⟨_, same, goes⟩
    cases same
    simp [open_] at goes
  | case6 d rest apart =>
    cases closed
    refine ⟨.nil, ?_⟩
    rintro ⟨_, same, -⟩
    exact apart (List.cons.inj same).1
  | case8 c d rest other _ any ih =>
    obtain ⟨⟨later, _⟩, found, same⟩ := Option.map_eq_some_iff.mp closed
    cases same
    obtain ⟨body, ended⟩ := ih found
    exact ⟨.pair (by simpa [Protects] using any) body, ended⟩
  | case13 c d rest other line any _ _ ih =>
    obtain ⟨⟨later, _⟩, found, same⟩ := Option.map_eq_some_iff.mp closed
    cases same
    obtain ⟨body, ended⟩ := ih found
    exact ⟨.char other (by simpa [Protects] using any) body, ended⟩
  | _ => rcases plain.escape with escape | escape <;> simp_all [plain.anyLine]

/-- A body and a mark that does not go on are found as they stand. -/
theorem Plain.close_of_body (between : Body q body) (ended : ¬ q.Extends after) :
    q.close (body ++ q.mark :: after) = some (body, after) := by
  induction between with
  | nil =>
    by_cases more : after.head? = some q.mark
    · obtain ⟨rest, rfl⟩ := List.head?_eq_some_iff.mp more
      have open_ : q.close rest = none := by
        rw [← Option.not_isSome_iff_eq_none]
        exact fun goes => ended ⟨rest, rfl, goes⟩
      rw [List.nil_append, close_twice, open_]
    · exact close_mark more
  | char other bare _ ih => rw [List.cons_append, plain.close_bare other bare, ih, Option.map_some]
  | pair protects _ ih => rw [List.cons_append, List.cons_append, plain.close_pair protects, ih, Option.map_some]
  | twice _ ih => rw [List.cons_append, List.cons_append, close_twice, ih]

/-- A body and a mark are never passed over: what is found is no shorter. -/
theorem Plain.close_at_least (between : Body q body) (rest : List Char) :
    ∃ inside after, q.close (body ++ q.mark :: rest) = some (inside, after) ∧ body.length ≤ inside.length := by
  induction between with
  | nil =>
    by_cases ended : q.Extends rest
    · obtain ⟨more, rfl, goes⟩ := ended
      obtain ⟨⟨inside, after⟩, found⟩ := Option.isSome_iff_exists.mp goes
      exact ⟨_, after, by rw [List.nil_append, close_twice, found], Nat.zero_le _⟩
    · exact ⟨[], rest, plain.close_of_body .nil ended, Nat.le_refl _⟩
  | @char c _ other bare _ ih =>
    obtain ⟨inside, after, found, longer⟩ := ih
    refine ⟨c :: inside, after, ?_, Nat.succ_le_succ longer⟩
    rw [List.cons_append, plain.close_bare other bare, found, Option.map_some]
  | @pair c d _ protects _ ih =>
    obtain ⟨inside, after, found, longer⟩ := ih
    refine ⟨c :: d :: inside, after, ?_, Nat.succ_le_succ (Nat.succ_le_succ longer)⟩
    rw [List.cons_append, List.cons_append, plain.close_pair protects, found, Option.map_some]
  | twice _ ih =>
    obtain ⟨inside, after, found, longer⟩ := ih
    refine ⟨q.mark :: q.mark :: inside, after, ?_, Nat.succ_le_succ (Nat.succ_le_succ longer)⟩
    rw [List.cons_append, List.cons_append, close_twice, found]

/-- Nothing closes the text exactly if no body with a mark behind it begins it. -/
theorem Plain.close_eq_none_iff : q.close cs = none ↔ ∀ body, Body q body → ¬ body ++ [q.mark] <+: cs := by
  constructor
  · rintro open_ body between ⟨rest, rfl⟩
    obtain ⟨inside, after, found, -⟩ := plain.close_at_least between rest
    rw [List.append_assoc, List.singleton_append, found] at open_
    contradiction
  · intro none
    cases found : q.close cs with
    | none => rfl
    | some parts =>
      obtain ⟨inside, after⟩ := parts
      exact absurd ⟨after, by rw [q.close_append _ _ _ found]; simp⟩ (none inside (plain.body_of_close found).1)

/-- The text in front of the closing mark is the longest body with a mark behind it. -/
theorem Plain.close_eq_some_iff : q.close cs = some (inside, after) ↔
    Body q inside ∧ cs = inside ++ q.mark :: after ∧
      ∀ body, Body q body → body ++ [q.mark] <+: cs → body.length ≤ inside.length := by
  constructor
  · intro closed
    refine ⟨(plain.body_of_close closed).1, q.close_append _ _ _ closed, ?_⟩
    rintro body between ⟨rest, rfl⟩
    obtain ⟨longest, behind, found, longer⟩ := plain.close_at_least between rest
    rw [List.append_assoc, List.singleton_append, found] at closed
    cases closed
    exact longer
  · rintro ⟨between, rfl, longest⟩
    refine plain.close_of_body between ?_
    rintro ⟨rest, rfl, goes⟩
    obtain ⟨⟨more, behind⟩, found⟩ := Option.isSome_iff_exists.mp goes
    have longer := longest (inside ++ q.mark :: q.mark :: more)
      (between.append (.twice (plain.body_of_close found).1))
      ⟨behind, by rw [q.close_append _ _ _ found]; simp⟩
    rw [List.length_append, List.length_cons] at longer
    omega

end Close

/-! Protected marks. -/

/-- No mark closes the text: each of them is protected, where `guarded` tells whether the first character is. -/
def Open (q : Quoting) : Bool → List Char → Prop
  | _, [] => True
  | true, _ :: rest => q.Open false rest
  | false, c :: rest => c ≠ q.mark ∧ q.Open (decide (q.Protects c)) rest

section Open
variable {q : Quoting} {cs ds : List Char} {guarded : Bool}

theorem Plain.open_iff (plain : q.Plain) : q.Open false cs ↔ q.close cs = none := by
  fun_induction Quoting.close q cs with
  | case1 => simp [Open]
  | case2 | case4 | case5 | case6 => simp [Open]
  | case3 c other => simp [Open, other]
  | case8 c d rest other _ any ih =>
    have protects : q.Protects c := by simpa [Protects] using any
    simp [Open, other, protects, ih]
  | case13 c d rest other _ any _ _ ih =>
    have bare : ¬ q.Protects c := by simpa [Protects] using any
    simpa [Open, other, bare] using ih
  | _ => rcases plain.escape with escape | escape <;> simp_all [plain.anyLine]

/-- Texts that are no less open behind any front. -/
theorem Open.of_behind (front : List Char) (behind : ∀ guarded, q.Open guarded cs → q.Open guarded ds)
    (stays : q.Open guarded (front ++ cs)) : q.Open guarded (front ++ ds) := by
  induction front generalizing guarded with
  | nil => exact behind guarded stays
  | cons c front ih =>
    cases guarded with
    | true => exact ih stays
    | false => exact ⟨stays.1, ih stays.2⟩

/-- What stands in front of a line feed makes no difference behind it. -/
theorem Plain.open_feed (plain : q.Plain) (front : List Char) (stays : q.Open guarded (front ++ '\n' :: cs)) (again : Bool) :
    q.Open again ('\n' :: cs) := by
  have bare : ¬ q.Protects '\n' := fun protects => absurd protects.1 (by decide)
  induction front generalizing guarded with
  | nil =>
    have behind : q.Open false cs := by
      cases guarded with
      | true => exact stays
      | false => simpa [Open, bare] using stays.2
    cases again with
    | true => exact behind
    | false => simpa [Open, bare] using ⟨plain.mark.2.symm, behind⟩
  | cons c front ih =>
    cases guarded with
    | true => exact ih stays
    | false => exact ih stays.2

end Open
end SqlSchema.Text.Quoting
