import SqlSchema.Proofs.Reader.Matching

/-! Repetitions round by round. If every round leaves less of the text, rounds that nothing counts come to an end, there
are no more of them than characters, and to stop them after so many changes nothing. -/
namespace SqlSchema.Reader.Rule
variable {α : Type} {r : Rule α} {c last : Cursor} {all : List α}

/-- What the rule reads leaves less of the text. -/
def Shortens (r : Rule α) : Prop := ∀ c a after, r.Reads c a after → after.rest.length < c.rest.length

/-- The rule is read again and again until it fails, and nothing counts how often. -/
inductive Rounds (r : Rule α) : Cursor → List α → Cursor → Prop
  | stop {c : Cursor} (failed : r.Fails c) : Rounds r c [] c
  | round {c after last : Cursor} {a : α} {more : List α} (reads : r.Reads c a after)
    (later : Rounds r after more last) : Rounds r c (a :: more) last

/-- The rule is read until it fails, but no more than so often. -/
def repeatUpTo (r : Rule α) : Nat → Cursor → List α × Cursor
  | 0, c => ([], c)
  | n + 1, c =>
    match r.read c with
    | .ok (a, after) => (a :: (repeatUpTo r n after).1, (repeatUpTo r n after).2)
    | .error _ => ([], c)

def manyUpTo (n : Nat) (r : Rule α) : Rule (List α) where
  skips := r.skips
  run c := .ok (repeatUpTo r n c)

/-- One or more of a rule, and no more than so many commas between them. -/
def listUpTo (n : Nat) (comma : Rule Unit) (r : Rule α) : Rule (List α) := do
  let first ← r
  let more ← manyUpTo n do
    comma
    r
  return first :: more

/-- A repetition never stops for want of progress. -/
theorem Shortens.rounds (shortens : r.Shortens) (c : Cursor) : Rounds r c (repeatFrom r c).1 (repeatFrom r c).2 := by
  fun_induction repeatFrom r c with
  | case1 c a after found shorter more last repeated ih =>
    rw [repeated] at ih
    exact .round found ih
  | case2 c a after found stuck => exact absurd (shortens c a after found) stuck
  | case3 c failure found => exact .stop ⟨failure, found⟩

namespace Rounds

theorem length_le (rounds : Rounds r c all last) (shortens : r.Shortens) :
    all.length + last.rest.length ≤ c.rest.length := by
  induction rounds with
  | stop failed => simp
  | round reads later ih =>
    have shorter := shortens _ _ _ reads
    rw [List.length_cons]
    omega

/-- More rounds than there are do not happen. -/
theorem repeatUpTo_eq (rounds : Rounds r c all last) {n : Nat} (enough : all.length ≤ n) :
    repeatUpTo r n c = (all, last) := by
  induction rounds generalizing n with
  | stop failed =>
    obtain ⟨failure, found⟩ := failed
    cases n with
    | zero => rfl
    | succ n => rw [repeatUpTo, found]
  | round reads later ih =>
    cases n with
    | zero => contradiction
    | succ n =>
      rw [Reads] at reads
      rw [repeatUpTo, reads]
      dsimp only
      rw [ih (Nat.le_of_succ_le_succ enough)]

end Rounds

namespace Shortens

theorem repeatUpTo_eq (shortens : r.Shortens) {n : Nat} (enough : c.rest.length ≤ n) :
    repeatUpTo r n c = repeatFrom r c := by
  have rounds := shortens.rounds c
  have few := rounds.length_le shortens
  exact rounds.repeatUpTo_eq (by omega)

theorem read_manyUpTo (shortens : r.Shortens) {n : Nat} (enough : c.rest.length ≤ n) :
    (manyUpTo n r).read c = (many r).read c :=
  congrArg Except.ok (shortens.repeatUpTo_eq ((r.origin_le c).trans enough))

theorem read_listUpTo {comma : Rule Unit} (shortens : r.Shortens)
    (later : (do
      comma
      r : Rule α).Shortens) {n : Nat} (enough : c.rest.length ≤ n) :
    (listUpTo n comma r).read c = (listOf comma r).read c := by
  rw [listUpTo, listOf, read_bind, read_bind]
  cases found : r.read c with
  | error failure => rfl
  | ok result =>
    obtain ⟨first, after⟩ := result
    have fits := (shortens c first after found).le.trans enough
    dsimp only
    rw [read_bind, read_bind, later.read_manyUpTo fits]

end Shortens
end SqlSchema.Reader.Rule
