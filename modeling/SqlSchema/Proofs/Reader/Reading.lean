import Mathlib.Data.List.Basic
import SqlSchema.Reader.Rule

/-! What a rule reads. Each way of making a rule from others has a law that says when the whole reads and when it
fails; no law speaks of the failure that is reported. -/
namespace SqlSchema.Reader

namespace Cursor

theorem advance_zero (c : Cursor) : c.advance 0 = c := by
  simp [advance]

theorem skipGap_rest (c : Cursor) : c.skipGap.rest = c.rest.dropWhile isGap := by
  rw [skipGap, advance, List.dropWhile_eq_drop_findIdx_not, List.takeWhile_eq_take_findIdx_not]
  simp [List.findIdx_le_length]

theorem skipGap_skipGap (c : Cursor) : c.skipGap.skipGap = c.skipGap := by
  have none : c.skipGap.rest.takeWhile isGap = [] := by
    rw [skipGap_rest]
    have visible := List.head?_dropWhile_not isGap c.rest
    cases found : c.rest.dropWhile isGap with
    | nil => rfl
    | cons first more =>
      rw [found] at visible
      exact List.takeWhile_cons_of_neg (by simpa using visible)
  conv_lhs => rw [skipGap, none]
  exact advance_zero _

end Cursor

namespace Rule

variable {α β : Type}

/-- The rule reads the value and ends at the second place. -/
def Reads (r : Rule α) (c : Cursor) (a : α) (after : Cursor) : Prop := r.read c = .ok (a, after)

def Fails (r : Rule α) (c : Cursor) : Prop := ∃ failure, r.read c = .error failure

theorem reads_or_fails (r : Rule α) (c : Cursor) : (∃ a after, r.Reads c a after) ∨ r.Fails c := by
  cases found : r.read c with
  | ok result => exact .inl ⟨result.1, result.2, found⟩
  | error failure => exact .inr ⟨failure, found⟩

theorem Reads.unique {r : Rule α} {c after last : Cursor} {a b : α} (first : r.Reads c a after)
    (second : r.Reads c b last) : a = b ∧ after = last := by
  have same := first.symm.trans second
  cases same
  exact ⟨rfl, rfl⟩

theorem Reads.not_fails {r : Rule α} {c after : Cursor} {a : α} (first : r.Reads c a after) : ¬ r.Fails c := by
  intro holds
  obtain ⟨failure, second⟩ := holds
  cases first.symm.trans second

theorem fails_iff (r : Rule α) (c : Cursor) : r.Fails c ↔ ∀ a after, ¬ r.Reads c a after := by
  constructor
  · intro failed a after found
    exact found.not_fails failed
  · intro never
    rcases reads_or_fails r c with ⟨a, after, found⟩ | failed
    · exact absurd found (never a after)
    · exact failed

/-- A gap in front that is skipped once is skipped for good. -/
theorem read_origin (r : Rule α) (c : Cursor) : r.read (r.origin c) = r.read c := by
  have same : r.origin (r.origin c) = r.origin c := by
    unfold origin
    split
    · exact c.skipGap_skipGap
    · rfl
  rw [read, same, read]

theorem read_skipGap (r : Rule α) (c : Cursor) (skips : r.skips = true) : r.read c.skipGap = r.read c := by
  have origin : r.origin c = c.skipGap := by simp [Rule.origin, skips]
  rw [← origin, read_origin]

theorem reads_skipGap (r : Rule α) (c after : Cursor) (a : α) (skips : r.skips = true) :
    r.Reads c.skipGap a after ↔ r.Reads c a after := by
  rw [Reads, read_skipGap r c skips, Reads]

theorem fails_skipGap (r : Rule α) (c : Cursor) (skips : r.skips = true) : r.Fails c.skipGap ↔ r.Fails c := by
  rw [Fails, read_skipGap r c skips, Fails]

@[simp] theorem reads_pure (a b : α) (c after : Cursor) :
    (pure a : Rule α).Reads c b after ↔ a = b ∧ c = after := by
  change (Except.ok (a, c) : Outcome α) = .ok (b, after) ↔ _
  simp

theorem read_bind (r : Rule α) (next : α → Rule β) (c : Cursor) :
    (r >>= next).read c = match r.read c with
      | .ok (a, after) => (next a).read after
      | .error failure => .error failure := rfl

@[simp] theorem reads_bind (r : Rule α) (next : α → Rule β) (c last : Cursor) (b : β) :
    (r >>= next).Reads c b last ↔ ∃ a after, r.Reads c a after ∧ (next a).Reads after b last := by
  unfold Reads
  rw [read_bind]
  cases r.read c with
  | ok result =>
    obtain ⟨value, place⟩ := result
    simp
  | error failure => simp

@[simp] theorem fails_bind (r : Rule α) (next : α → Rule β) (c : Cursor) :
    (r >>= next).Fails c ↔ r.Fails c ∨ ∃ a after, r.Reads c a after ∧ (next a).Fails after := by
  unfold Fails Reads
  rw [read_bind]
  cases r.read c with
  | ok result =>
    obtain ⟨value, place⟩ := result
    simp
  | error failure => simp

theorem read_optional (r : Rule α) (c : Cursor) :
    (optional r).read c = match r.read c with
      | .ok (a, after) => .ok (some a, after)
      | .error _ => .ok (none, r.origin c) := rfl

theorem reads_optional (r : Rule α) (c after : Cursor) (found : Option α) :
    (optional r).Reads c found after ↔
      (∃ a, found = some a ∧ r.Reads c a after) ∨ (found = none ∧ r.Fails c ∧ after = r.origin c) := by
  unfold Reads Fails
  rw [read_optional]
  cases r.read c with
  | ok result => cases result; simp [eq_comm]
  | error failure => simp [eq_comm]

/-- One of the rules reads, and those in front of it fail. -/
def FirstReads : List (Rule α) → Cursor → α → Cursor → Prop
  | [], _, _, _ => False
  | r :: more, c, a, after => r.Reads c a after ∨ r.Fails c ∧ FirstReads more c a after

theorem firstOf_eq_ok (c after : Cursor) (rules : List (Rule α)) (a : α) :
    firstOf c rules = .ok (a, after) ↔ FirstReads rules c a after := by
  induction rules with
  | nil => simp [firstOf, FirstReads]
  | cons r more ih =>
    simp only [firstOf, FirstReads, ← ih, Reads, Fails]
    cases r.read c with
    | ok found => simp
    | error failure => cases firstOf c more <;> simp [Except.mapError]

theorem firstOf_skipGap (c : Cursor) (rules : List (Rule α)) (skip : rules.all (·.skips) = true) :
    firstOf c.skipGap rules = firstOf c rules := by
  induction rules with
  | nil => rfl
  | cons r more ih =>
    rw [List.all_cons, Bool.and_eq_true] at skip
    rw [firstOf, firstOf, read_skipGap r c skip.1, ih skip.2]

theorem firstOf_origin (name : Shape) (rules : List (Rule α)) (c : Cursor) :
    firstOf ((choice name rules).origin c) rules = firstOf c rules := by
  unfold origin
  split
  next skip => exact firstOf_skipGap c rules skip
  next => rfl

theorem read_choice (name : Shape) (rules : List (Rule α)) (c : Cursor) :
    (choice name rules).read c = match firstOf c rules with
      | .ok found => .ok found
      | .error [] => fail ((choice name rules).origin c).position (.shape name)
      | .error (first :: more) =>
        let best := furthest first more
        if best.position = ((choice name rules).origin c).position then
          fail ((choice name rules).origin c).position (.shape name)
        else .error best := by
  rw [← firstOf_origin name rules c]
  rfl

theorem reads_choice (name : Shape) (rules : List (Rule α)) (c after : Cursor) (a : α) :
    (choice name rules).Reads c a after ↔ FirstReads rules c a after := by
  rw [Reads, read_choice, ← firstOf_eq_ok]
  cases firstOf c rules with
  | ok found => simp
  | error failures =>
    cases failures with
    | nil => simp [fail]
    | cons first more =>
      dsimp only
      split <;> simp [fail]

theorem fails_choice (name : Shape) (rules : List (Rule α)) (c : Cursor) :
    (choice name rules).Fails c ↔ ∀ r ∈ rules, r.Fails c := by
  simp only [fails_iff (choice name rules), reads_choice]
  induction rules with
  | nil => simp [FirstReads]
  | cons r more ih =>
    simp only [FirstReads, not_or, not_and, List.forall_mem_cons]
    constructor
    · intro never
      have failed := (fails_iff r c).mpr fun a after => (never a after).1
      exact ⟨failed, ih.mp fun a after => (never a after).2 failed⟩
    · intro holds a after
      obtain ⟨failed, others⟩ := holds
      exact ⟨(fails_iff r c).mp failed a after, fun _ => ih.mpr others a after⟩

theorem read_without (name : Shape) (r : Rule α) (c : Cursor) :
    (without name r).read c = match r.read c with
      | .ok _ => fail c.position (.absence name)
      | .error _ => .ok ((), c) := rfl

@[simp] theorem reads_without (name : Shape) (r : Rule α) (c after : Cursor) (u : Unit) :
    (without name r).Reads c u after ↔ r.Fails c ∧ c = after := by
  unfold Reads Fails
  rw [read_without]
  cases r.read c <;> simp [fail]

theorem read_endOfText (c : Cursor) :
    endOfText.read c =
      if c.skipGap.position < c.skipGap.size then fail c.skipGap.position (.shape (.named "end of text"))
      else .ok ((), c.skipGap) := rfl

@[simp] theorem reads_endOfText (c after : Cursor) (u : Unit) :
    endOfText.Reads c u after ↔ c.skipGap.size ≤ c.skipGap.position ∧ c.skipGap = after := by
  rw [Reads, read_endOfText]
  split
  next more => simp [fail, Nat.not_le.mpr more]
  next passed => simp [Nat.not_lt.mp passed]

theorem readAll_eq_ok (r : Rule α) (cs : List Char) (a : α) :
    r.readAll cs = .ok a ↔ ∃ after, r.Reads (Cursor.start cs) a after ∧ ∃ last, endOfText.Reads after () last := by
  have whole (b : α) (last : Cursor) :
      (do
        let value ← r
        endOfText
        return value : Rule α).Reads (Cursor.start cs) b last ↔
        ∃ after, r.Reads (Cursor.start cs) b after ∧ endOfText.Reads after () last := by
    simp only [reads_bind, reads_pure]
    constructor
    · intro holds
      obtain ⟨value, after, found, _, _, ended, rfl, rfl⟩ := holds
      exact ⟨after, found, ended⟩
    · intro holds
      obtain ⟨after, found, ended⟩ := holds
      exact ⟨b, after, found, (), last, ended, rfl, rfl⟩
  unfold readAll
  constructor
  · intro found
    dsimp only at found
    cases result : Rule.read _ (Cursor.start cs) with
    | error failure =>
      rw [result] at found
      cases found
    | ok pair =>
      rw [result] at found
      cases found
      obtain ⟨after, reads, ended⟩ := (whole pair.1 pair.2).mp result
      exact ⟨after, reads, pair.2, ended⟩
  · intro holds
    obtain ⟨after, reads, last, ended⟩ := holds
    have result := (whole a last).mpr ⟨after, reads, ended⟩
    dsimp only
    rw [Reads] at result
    rw [result]
    rfl

/-! What all values of a rule have in common. -/

/-- Whatever the rule reads has the property. -/
def Yields (r : Rule α) (P : α → Prop) : Prop := ∀ c a after, r.Reads c a after → P a

section Yields
variable {P : α → Prop} {Q : β → Prop}

theorem yields_any (r : Rule α) : r.Yields fun _ => True := fun _ _ _ _ => trivial

theorem yields_pure (a : α) (holds : P a) : (pure a : Rule α).Yields P := by
  intro c b after found
  obtain ⟨rfl, _⟩ := (reads_pure ..).mp found
  exact holds

theorem yields_bind (r : Rule α) (next : α → Rule β) (first : r.Yields P) (second : ∀ a, P a → (next a).Yields Q) :
    (r >>= next).Yields Q := by
  intro c b last found
  obtain ⟨a, after, head, tail⟩ := (reads_bind ..).mp found
  exact second a (first c a after head) after b last tail

theorem yields_then (r : Rule α) (next : α → Rule β) (second : ∀ a, (next a).Yields Q) : (r >>= next).Yields Q :=
  yields_bind r next r.yields_any fun a _ => second a

theorem yields_optional (r : Rule α) (each : r.Yields P) : (optional r).Yields fun found => ∀ a ∈ found, P a := by
  intro c found after reads
  rcases (reads_optional ..).mp reads with ⟨a, rfl, here⟩ | ⟨rfl, _⟩
  · rintro _ ⟨rfl⟩
    exact each c a after here
  · nofun

theorem FirstReads.exists_mem {rules : List (Rule α)} {c after : Cursor} {a : α} (found : FirstReads rules c a after) :
    ∃ r ∈ rules, r.Reads c a after := by
  induction rules with
  | nil => exact found.elim
  | cons r more ih =>
    rcases found with here | ⟨_, later⟩
    · exact ⟨r, by simp, here⟩
    · obtain ⟨other, member, reads⟩ := ih later
      exact ⟨other, by simp [member], reads⟩

theorem yields_choice (name : Shape) (rules : List (Rule α)) (each : ∀ r ∈ rules, r.Yields P) :
    (choice name rules).Yields P := by
  intro c a after found
  obtain ⟨r, member, reads⟩ := ((reads_choice ..).mp found).exists_mem
  exact each r member c a after reads

theorem forall_mem_repeatFrom (r : Rule α) (each : r.Yields P) (c : Cursor) : ∀ a ∈ (repeatFrom r c).1, P a := by
  fun_induction repeatFrom r c with
  | case1 c first after found shorter more last repeated ih =>
    rw [repeated] at ih
    exact List.forall_mem_cons.mpr ⟨each c first after found, ih⟩
  | case2 c first after found stuck => exact List.forall_mem_singleton.mpr (each c first after found)
  | case3 c failure => exact List.forall_mem_nil _

theorem yields_many (r : Rule α) (each : r.Yields P) : (many r).Yields fun all => ∀ a ∈ all, P a := by
  intro c all after found
  have same : repeatFrom r ((many r).origin c) = (all, after) := Except.ok.inj found
  have holds := forall_mem_repeatFrom r each ((many r).origin c)
  rwa [same] at holds

theorem yields_listOf (comma : Rule Unit) (r : Rule α) (each : r.Yields P) :
    (listOf comma r).Yields fun all => all ≠ [] ∧ ∀ a ∈ all, P a := by
  refine yields_bind _ _ each fun first holds => ?_
  refine yields_bind _ _ (yields_many _ (yields_then _ _ fun _ => each)) fun more rest => ?_
  refine yields_pure _ ⟨by simp, ?_⟩
  rw [List.forall_mem_cons]
  exact ⟨holds, rest⟩

end Yields
end Rule
end SqlSchema.Reader
