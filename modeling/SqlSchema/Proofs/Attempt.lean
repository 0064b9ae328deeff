import Mathlib.Data.List.Forall2
import SqlSchema.Rejection

/-! How attempts end: with a value, with an error of their own, or interrupted. A sequence of attempts ends without a
value exactly where the first of them does. -/
namespace SqlSchema.Attempt

variable {ε δ α β : Type}

/-- The attempt ends with the value. -/
def Gives (x : Attempt ε α) (a : α) : Prop := x.run = .ok (.ok a)

/-- An end without a value. -/
inductive Break (ε : Type) where
  | rejected (e : ε)
  | interrupted (i : Interruption)

def Break.outcome : Break ε → Except Interruption (Except ε α)
  | .rejected e => .ok (.error e)
  | .interrupted i => .error i

def Breaks (x : Attempt ε α) (b : Break ε) : Prop := x.run = b.outcome

/-- The attempt ends with the error. -/
abbrev Rejects (x : Attempt ε α) (e : ε) : Prop := x.Breaks (.rejected e)

/-- The attempt is interrupted. -/
abbrev Stops (x : Attempt ε α) (i : Interruption) : Prop := x.Breaks (.interrupted i)

theorem rejects_iff (x : Attempt ε α) (e : ε) : x.Rejects e ↔ x.run = .ok (.error e) := Iff.rfl

theorem stops_iff (x : Attempt ε α) (i : Interruption) : x.Stops i ↔ x.run = .error i := Iff.rfl

theorem gives_or_breaks (x : Attempt ε α) : (∃ a, x.Gives a) ∨ ∃ b, x.Breaks b := by
  match found : x.run with
  | .ok (.ok a) => exact .inl ⟨a, found⟩
  | .ok (.error e) => exact .inr ⟨.rejected e, found⟩
  | .error i => exact .inr ⟨.interrupted i, found⟩

instance [DecidableEq α] (x : Attempt ε α) (a : α) : Decidable (x.Gives a) :=
  match found : x.run with
  | .ok (.ok b) => decidable_of_iff (b = a) (by simp [Gives, found])
  | .ok (.error _) => .isFalse (by simp [Gives, found])
  | .error _ => .isFalse (by simp [Gives, found])

theorem Gives.unique {x : Attempt ε α} {a b : α} (first : x.Gives a) (second : x.Gives b) : a = b := by
  have same : (Except.ok (.ok a) : Except Interruption (Except ε α)) = .ok (.ok b) := first.symm.trans second
  cases same
  rfl

theorem Gives.not_breaks {x : Attempt ε α} {a : α} (value : x.Gives a) (b : Break ε) : ¬ x.Breaks b := by
  intro broken
  have same := value.symm.trans broken
  cases b <;> cases same

theorem Breaks.unique {x : Attempt ε α} {b c : Break ε} (first : x.Breaks b) (second : x.Breaks c) : b = c := by
  have same : (b.outcome : Except Interruption (Except ε α)) = c.outcome := first.symm.trans second
  cases b <;> cases c <;> cases same <;> rfl

@[simp] theorem gives_pure (a b : α) : (pure a : Attempt ε α).Gives b ↔ a = b :=
  ⟨fun value => (Gives.unique value rfl).symm, fun equal => equal ▸ rfl⟩

@[simp] theorem breaks_pure (a : α) (b : Break ε) : ¬ (pure a : Attempt ε α).Breaks b :=
  ((gives_pure a a).mpr rfl).not_breaks b

@[simp] theorem gives_throw (e : ε) (a : α) : ¬ (throw e : Attempt ε α).Gives a := by
  intro value
  cases value

@[simp] theorem breaks_throw (e : ε) (b : Break ε) : (throw e : Attempt ε α).Breaks b ↔ b = .rejected e :=
  ⟨fun broken => broken.unique rfl, fun equal => equal ▸ rfl⟩

@[simp] theorem gives_interrupt (i : Interruption) (a : α) : ¬ (interrupt i : Attempt ε α).Gives a := by
  intro value
  cases value

@[simp] theorem breaks_interrupt (i : Interruption) (b : Break ε) :
    (interrupt i : Attempt ε α).Breaks b ↔ b = .interrupted i :=
  ⟨fun broken => broken.unique rfl, fun equal => equal ▸ rfl⟩

@[simp] theorem gives_bind (x : Attempt ε α) (next : α → Attempt ε β) (b : β) :
    (x >>= next).Gives b ↔ ∃ a, x.Gives a ∧ (next a).Gives b := by
  simp only [Gives, ExceptT.run_bind]
  match x.run with
  | .ok (.ok a) => simp [bind, Except.bind]
  | .ok (.error e) => simp [bind, Except.bind, pure, Except.pure]
  | .error i => simp [bind, Except.bind]

@[simp] theorem breaks_bind (x : Attempt ε α) (next : α → Attempt ε β) (b : Break ε) :
    (x >>= next).Breaks b ↔ x.Breaks b ∨ ∃ a, x.Gives a ∧ (next a).Breaks b := by
  simp only [Breaks, Gives, ExceptT.run_bind]
  match x.run with
  | .ok (.ok a) => cases b <;> simp [bind, Except.bind, Break.outcome]
  | .ok (.error e) => cases b <;> simp [bind, Except.bind, pure, Except.pure, Break.outcome]
  | .error i => cases b <;> simp [bind, Except.bind, Break.outcome]

@[simp] theorem gives_map (f : α → β) (x : Attempt ε α) (b : β) : (f <$> x).Gives b ↔ ∃ a, x.Gives a ∧ f a = b := by
  rw [map_eq_pure_bind, gives_bind]
  simp

@[simp] theorem breaks_map (f : α → β) (x : Attempt ε α) (b : Break ε) : (f <$> x).Breaks b ↔ x.Breaks b := by
  rw [map_eq_pure_bind, breaks_bind]
  simp

@[simp] theorem gives_adapt (f : ε → δ) (x : Attempt ε α) (a : α) :
    Attempt.Gives (ExceptT.adapt f x) a ↔ x.Gives a := by
  simp only [Gives, ExceptT.run_adapt]
  match x.run with
  | .ok (.ok _) => simp [Functor.map, Except.map, Except.mapError]
  | .ok (.error e) => simp [Functor.map, Except.map, Except.mapError]
  | .error i => simp [Functor.map, Except.map]

@[simp] theorem stops_adapt (f : ε → δ) (x : Attempt ε α) (i : Interruption) :
    Attempt.Stops (ExceptT.adapt f x) i ↔ x.Stops i := by
  simp only [stops_iff, ExceptT.run_adapt]
  match x.run with
  | .ok (.ok _) => simp [Functor.map, Except.map]
  | .ok (.error e) => simp [Functor.map, Except.map]
  | .error i => simp [Functor.map, Except.map]

@[simp] theorem rejects_adapt (f : ε → δ) (x : Attempt ε α) (e : δ) :
    Attempt.Rejects (ExceptT.adapt f x) e ↔ ∃ cause, x.Rejects cause ∧ f cause = e := by
  simp only [rejects_iff, ExceptT.run_adapt]
  match x.run with
  | .ok (.ok _) => simp [Functor.map, Except.map, Except.mapError]
  | .ok (.error e) => simp [Functor.map, Except.map, Except.mapError]
  | .error i => simp [Functor.map, Except.map]

theorem map_eq_ok (f : α → β) (x : Except ε α) (b : β) : x.map f = .ok b ↔ ∃ a, x = .ok a ∧ f a = b := by
  cases x <;> simp [Except.map]

theorem map_eq_error (f : α → β) (x : Except ε α) (e : ε) : x.map f = .error e ↔ x = .error e := by
  cases x <;> simp [Except.map]

theorem mapError_eq_ok (f : ε → δ) (x : Except ε α) (a : α) : x.mapError f = .ok a ↔ x = .ok a := by
  cases x <;> simp [Except.mapError]

theorem exists_of_any_toOption {x : Except ε α} {p : α → Bool} (holds : x.toOption.any p = true) :
    ∃ a, x = .ok a ∧ p a = true := by
  cases x with
  | error e => contradiction
  | ok a => exact ⟨a, rfl, holds⟩

/-! Computations that can only be interrupted, and those that can only fail. -/

@[simp] theorem gives_lift (x : Except Interruption α) (a : α) :
    (liftM x : Attempt ε α).Gives a ↔ x = .ok a := by
  cases x <;> simp [Gives, liftM, monadLift, MonadLift.monadLift, ExceptT.lift, Functor.map, Except.map]

@[simp] theorem breaks_lift (x : Except Interruption α) (b : Break ε) :
    (liftM x : Attempt ε α).Breaks b ↔ ∃ i, x = .error i ∧ b = .interrupted i := by
  cases x <;> cases b <;>
    simp [Breaks, Break.outcome, liftM, monadLift, MonadLift.monadLift, ExceptT.lift, Functor.map, Except.map,
      eq_comm]

@[simp] theorem gives_ofExcept (x : Except ε α) (a : α) : (ofExcept x : Attempt ε α).Gives a ↔ x = .ok a := by
  cases x <;> simp [ofExcept]

@[simp] theorem breaks_ofExcept (x : Except ε α) (b : Break ε) :
    (ofExcept x : Attempt ε α).Breaks b ↔ ∃ e, x = .error e ∧ b = .rejected e := by
  cases x <;> simp [ofExcept]

/-! Lists, element by element. -/

theorem exists_reached_cons (P Q : α → Prop) (first : α) (rest : List α) :
    (∃ before item after, first :: rest = before ++ item :: after ∧ (∀ passed ∈ before, P passed) ∧ Q item) ↔
      Q first ∨ P first ∧
        ∃ before item after, rest = before ++ item :: after ∧ (∀ passed ∈ before, P passed) ∧ Q item := by
  constructor
  · intro holds
    rcases holds with ⟨_ | ⟨head, before⟩, item, after, split, passed, here⟩
    · cases split
      exact .inl here
    · cases split
      rw [List.forall_mem_cons] at passed
      exact .inr ⟨passed.1, before, item, after, rfl, passed.2, here⟩
  · intro holds
    rcases holds with here | ⟨passes, before, item, after, rfl, passed, here⟩
    · exact ⟨[], first, rest, rfl, List.forall_mem_nil _, here⟩
    · exact ⟨first :: before, item, after, rfl, List.forall_mem_cons.mpr ⟨passes, passed⟩, here⟩

theorem breaks_mapM (f : α → Attempt ε β) (items : List α) (b : Break ε) :
    (items.mapM f).Breaks b ↔
      ∃ before item after, items = before ++ item :: after ∧ (∀ passed ∈ before, ∃ result, (f passed).Gives result) ∧
        (f item).Breaks b := by
  induction items with
  | nil => simp
  | cons first rest ih =>
    rw [exists_reached_cons, ← ih, List.mapM_cons]
    simp

theorem gives_mapM_iff (f : α → Attempt ε β) (items : List α) (results : List β) :
    (items.mapM f).Gives results ↔ List.Forall₂ (fun a b => (f a).Gives b) items results := by
  induction items generalizing results with
  | nil => simp [eq_comm]
  | cons first more ih => simp [List.mapM_cons, ih, List.forall₂_cons_left_iff, eq_comm]

theorem exists_gives_mapM_iff (f : α → Attempt ε β) (items : List α) :
    (∃ results, (items.mapM f).Gives results) ↔ ∀ item ∈ items, ∃ result, (f item).Gives result := by
  induction items with
  | nil => simp
  | cons first rest ih =>
    rw [List.forall_mem_cons, ← ih, List.mapM_cons]
    simp

theorem forall₂_mapM {f : α → Attempt ε β} {R : α → β → Prop} (each : ∀ a b, (f a).Gives b → R a b)
    {items : List α} {results : List β} (given : (items.mapM f).Gives results) : List.Forall₂ R items results :=
  ((gives_mapM_iff ..).mp given).imp each

/-- What the results of a list have in common. -/
theorem forall_mapM {f : α → Attempt ε β} {P : α → Prop} {Q : β → Prop} (each : ∀ a b, P a → (f a).Gives b → Q b)
    {items : List α} {results : List β} (all : ∀ a ∈ items, P a) (given : (items.mapM f).Gives results) :
    ∀ b ∈ results, Q b := by
  induction (gives_mapM_iff ..).mp given with
  | nil => exact List.forall_mem_nil _
  | cons here _ ih =>
    rw [List.forall_mem_cons] at all ⊢
    exact ⟨each _ _ all.1 here, ih all.2 ((gives_mapM_iff ..).mpr ‹_›)⟩

theorem mapM_eq_nil {f : α → Attempt ε β} {items : List α} {results : List β} (given : (items.mapM f).Gives results) :
    results = [] ↔ items = [] := by
  rw [← List.length_eq_zero_iff, ← List.length_eq_zero_iff, ((gives_mapM_iff ..).mp given).length_eq]

theorem exists_gives_iff (x : Attempt ε α) : (∃ a, x.Gives a) ↔ ∀ b, ¬ x.Breaks b := by
  constructor
  · intro holds b
    obtain ⟨a, given⟩ := holds
    exact given.not_breaks b
  · intro never
    rcases gives_or_breaks x with given | ⟨b, broken⟩
    · exact given
    · exact absurd broken (never b)

theorem exists_gives_congr (x : Attempt ε α) (y : Attempt ε β) (same : ∀ b, x.Breaks b ↔ y.Breaks b) :
    (∃ a, x.Gives a) ↔ ∃ a, y.Gives a := by
  rw [exists_gives_iff, exists_gives_iff]
  exact forall_congr' fun b => not_congr (same b)

theorem breaks_mapM_append (f : α → Attempt ε β) (front back : List α) (b : Break ε) :
    ((front ++ back).mapM f).Breaks b ↔
      (front.mapM f).Breaks b ∨ (∃ results, (front.mapM f).Gives results) ∧ (back.mapM f).Breaks b := by
  simp [List.mapM_append]

/-- Elements that are attempted part by part break as the list of all parts does. -/
theorem breaks_mapM_flatMap {γ : Type} (f : α → Attempt ε β) (parts : α → List γ) (check : γ → Attempt ε δ)
    (same : ∀ a b, (f a).Breaks b ↔ ((parts a).mapM check).Breaks b) (items : List α) (b : Break ε) :
    (items.mapM f).Breaks b ↔ ((items.flatMap parts).mapM check).Breaks b := by
  induction items with
  | nil => simp
  | cons item rest ih =>
    have given := exists_gives_congr (f item) ((parts item).mapM check) (same item)
    rw [List.flatMap_cons, breaks_mapM_append, ← ih, ← same, ← given]
    simp

end SqlSchema.Attempt
