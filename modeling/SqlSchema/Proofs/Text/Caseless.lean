import SqlSchema.Proofs.Text.Upper

/-! Properties of characters that do not depend on the case of ASCII letters. All other letters are their own small
letters here, so such a property only has to be checked on ASCII. -/
namespace SqlSchema.Text

/-- The same for characters with one small letter. -/
def Caseless {α : Type} (f : Char → α) : Prop := ∀ c d : Char, c.toLower = d.toLower → f c = f d

/-- Beyond ASCII nothing has a small letter of its own. -/
theorem toLower_of_foreign (c : Char) (foreign : ¬ c.toNat < 128) : c.toLower = c := by
  unfold Char.toLower
  split
  next capital =>
    have last : c.toNat ≤ 90 := capital.2
    omega
  next => rfl

theorem caseless_of_ascii {α : Type} {f : Char → α}
    (all : ∀ n < 128, f (Char.ofNat n).toLower = f (Char.ofNat n)) : Caseless f := by
  have small (c : Char) : f c.toLower = f c := by
    by_cases ascii : c.toNat < 128
    · exact forall_ascii (P := fun c => f c.toLower = f c) all c ascii
    · rw [toLower_of_foreign c ascii]
  intro c d same
  rw [← small c, same, small d]

/-- A character that is no letter is the small letter of itself only. -/
theorem caseless_beq {c : Char} (other : c.isAlpha = false) : Caseless (· == c) := by
  have small (d : Char) : (d.toLower == c) = (d == c) := by
    by_cases high : d.isUpper = true
    · have lower : d.toLower.isAlpha = true :=
        forall_ascii (P := fun d => d.isUpper = true → d.toLower.isAlpha = true) (by decide) d
          (ascii_of_isAlpha d ((isAlpha_iff d).mpr (.inl high))) high
      have first : d ≠ c := by
        rintro rfl
        exact absurd ((isAlpha_iff d).mpr (.inl high)) (Bool.eq_false_iff.mp other)
      have second : d.toLower ≠ c := by
        rintro rfl
        rw [lower] at other
        contradiction
      rw [beq_false_of_ne first, beq_false_of_ne second]
    · have own : d.toLower = d := by
        unfold Char.toLower
        split
        next capital => exact absurd (decide_eq_true capital) high
        next => rfl
      rw [own]
  intro d e same
  dsimp only
  rw [← small d, same, small e]

theorem Caseless.comp {α β : Type} {f : Char → α} (caseless : Caseless f) (g : α → β) : Caseless fun c => g (f c) :=
  fun c d same => congrArg g (caseless c d same)

theorem caseless_capitals : Caseless capitals := caseless_of_ascii (by decide)

/-- What tells fewer characters apart tells fewer texts apart. -/
theorem map_eq_of_coarser {α β : Type} {f : Char → α} {g : Char → β} (coarser : ∀ c d, f c = f d → g c = g d)
    {cs ds : List Char} (same : cs.map f = ds.map f) : cs.map g = ds.map g := by
  induction cs generalizing ds with
  | nil =>
    rw [List.map_nil, eq_comm, List.map_eq_nil_iff] at same
    rw [same]
  | cons c cs ih =>
    cases ds with
    | nil => contradiction
    | cons d ds =>
      obtain ⟨first, more⟩ := List.cons.inj same
      rw [List.map_cons, List.map_cons, coarser c d first, ih more]

/-- Texts that differ in the case of letters have one upper case. -/
theorem upper_of_caseless {f : Char → Char} (keeps : ∀ c d, f c = f d → c.toLower = d.toLower) {cs ds : List Char}
    (same : cs.map f = ds.map f) : upper cs = upper ds := by
  rw [upper, upper, List.flatMap_def, List.flatMap_def,
    map_eq_of_coarser (fun c d seen => caseless_capitals c d (keeps c d seen)) same]

end SqlSchema.Text
