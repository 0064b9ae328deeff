import SqlSchema.Proofs.Reader.Keyword
import SqlSchema.Proofs.Text.Enclosed
import SqlSchema.Reader.Statement

/-! What a rule passes over. Where nothing is quoted, each way of making a rule from others has a law that says what the
text it reads looks like: parts without parentheses, parts where every parenthesis has its partner, and lists between
parentheses whose elements commas part. -/
namespace SqlSchema.Reader
open Text

def quotes : List Char := ['\x27', '\x22', '\x60']

/-- Nothing is quoted. -/
def Bare (cs : List Char) : Prop := ∀ c ∈ cs, c ∉ quotes

instance (cs : List Char) : Decidable (Bare cs) := inferInstanceAs (Decidable (∀ _ ∈ _, _))

theorem Bare.behind {cs front more : List Char} (bare : Bare cs) (split : cs = front ++ more) : Bare more :=
  fun c member => bare c (split ▸ List.mem_append_right _ member)

/-- White space between words. -/
def Gap (cs : List Char) : Prop := ∀ c ∈ cs, Cursor.isGap c = true

instance (cs : List Char) : Decidable (Gap cs) := inferInstanceAs (Decidable (∀ _ ∈ _, _))

theorem Gap.flat {cs : List Char} (gap : Gap cs) : Flat cs := by
  have known (c : Char) (blank : Cursor.isGap c = true) : c ≠ '(' ∧ c ≠ ')' ∧ c ≠ ',' := by
    simp only [Cursor.isGap, Bool.or_eq_true, beq_iff_eq, or_assoc] at blank
    rcases blank with rfl | rfl | rfl | rfl <;> decide
  exact fun c member => known c (gap c member)

theorem gap_nil : Gap [] := List.forall_mem_nil _

theorem Gap.append {front more : List Char} (first : Gap front) (second : Gap more) : Gap (front ++ more) :=
  List.forall_mem_append.mpr ⟨first, second⟩

/-- The gap that is skipped. -/
theorem Cursor.gap_skipGap (c : Cursor) : ∃ gap, c.rest = gap ++ c.skipGap.rest ∧ Gap gap := by
  refine ⟨c.rest.takeWhile isGap, ?_, fun d member => List.mem_takeWhile_imp member⟩
  rw [skipGap_rest, List.takeWhile_append_dropWhile]

namespace Rule
variable {α β : Type}

/-- Whatever the rule reads has the property, together with the text that it passes over, where nothing is quoted. -/
def Passes (r : Rule α) (P : α → List Char → Prop) : Prop :=
  ∀ c a after, Bare c.rest → r.Reads c a after → ∃ passed, c.rest = passed ++ after.rest ∧ P a passed

section Laws
variable {P : α → List Char → Prop} {Q : β → List Char → Prop}

theorem Passes.mono {P' : α → List Char → Prop} {r : Rule α} (passes : r.Passes P) (weaker : ∀ a cs, P a cs → P' a cs) :
    r.Passes P' := by
  intro c a after bare found
  obtain ⟨passed, split, holds⟩ := passes c a after bare found
  exact ⟨passed, split, weaker a passed holds⟩

theorem passes_pure (a : α) (holds : P a []) : (pure a : Rule α).Passes P := by
  intro c b after _ found
  obtain ⟨rfl, rfl⟩ := (reads_pure ..).mp found
  exact ⟨[], rfl, holds⟩

theorem Passes.bind {r : Rule α} {next : α → Rule β} {R : α → β → List Char → Prop} (first : r.Passes P)
    (second : ∀ a, (next a).Passes (R a))
    (append : ∀ a b front more, P a front → R a b more → Q b (front ++ more)) : (r >>= next).Passes Q := by
  intro c b last bare found
  obtain ⟨a, after, head, tail⟩ := (reads_bind ..).mp found
  obtain ⟨front, split, holds⟩ := first c a after bare head
  obtain ⟨more, rest, later⟩ := second a after b last (bare.behind split) tail
  exact ⟨front ++ more, by rw [split, rest, List.append_assoc], append a b front more holds later⟩

theorem Passes.map {r : Rule α} {f : α → β} (passes : r.Passes P) (made : ∀ a cs, P a cs → Q (f a) cs) :
    (do return f (← r) : Rule β).Passes Q := by
  refine Passes.bind passes (fun a => passes_pure (P := fun b cs => b = f a ∧ cs = []) (f a) ⟨rfl, rfl⟩)
    fun a b front more holds none => ?_
  rw [none.1, none.2, List.append_nil]
  exact made a front holds

theorem passes_choice (name : Shape) (rules : List (Rule α)) (each : ∀ r ∈ rules, r.Passes P) :
    (choice name rules).Passes P := by
  intro c a after bare found
  obtain ⟨r, member, reads⟩ := ((reads_choice ..).mp found).exists_mem
  exact each r member c a after bare reads

theorem passes_without (name : Shape) (r : Rule α) : (without name r).Passes fun _ passed => passed = [] := by
  intro c u after _ found
  obtain ⟨_, rfl⟩ := (reads_without ..).mp found
  exact ⟨[], rfl, rfl⟩

theorem passes_optional {r : Rule α} (passes : r.Passes P) :
    (optional r).Passes fun found passed => (∃ a, found = some a ∧ P a passed) ∨ found = none ∧ Gap passed := by
  intro c found after bare reads
  rcases (reads_optional ..).mp reads with ⟨a, rfl, inside⟩ | ⟨rfl, _, rfl⟩
  · obtain ⟨passed, split, holds⟩ := passes c a after bare inside
    exact ⟨passed, split, .inl ⟨a, rfl, holds⟩⟩
  · unfold origin
    split
    · obtain ⟨gap, split, blank⟩ := c.gap_skipGap
      exact ⟨gap, split, .inr ⟨rfl, blank⟩⟩
    · exact ⟨[], rfl, .inr ⟨rfl, gap_nil⟩⟩

theorem passes_recognised (name : Shape) (recognise : List Char → Option (α × Nat))
    (known : ∀ cs a size, Bare cs → recognise cs = some (a, size) → P a (cs.take size)) :
    (recognised name recognise).Passes fun a passed => ∃ gap more, passed = gap ++ more ∧ Gap gap ∧ P a more := by
  intro c a after bare reads
  obtain ⟨size, found, rfl⟩ := (reads_recognised ..).mp reads
  obtain ⟨gap, split, blank⟩ := c.gap_skipGap
  refine ⟨gap ++ c.skipGap.rest.take size, ?_, gap, _, rfl, blank, known _ a size (bare.behind split) found⟩
  rw [Cursor.advance, List.append_assoc, List.take_append_drop, ← split]

theorem passes_mark (sign : Char) : (mark sign).Passes fun _ passed => ∃ gap, passed = gap ++ [sign] ∧ Gap gap := by
  intro c u after _ found
  obtain ⟨gap, split, blank⟩ := c.gap_skipGap
  obtain ⟨rest, here, rfl⟩ := (reads_mark ..).mp found
  refine ⟨gap ++ [sign], ?_, gap, rfl, blank⟩
  rw [split, Cursor.advance, here]
  simp

/-- What is quoted is not read. -/
theorem passes_quoted {q : Quoting} (mark : q.mark ∈ quotes) (P : String → List Char → Prop) : (quoted q).Passes P := by
  intro c text after bare found
  obtain ⟨gap, split, _⟩ := c.gap_skipGap
  obtain ⟨rest, _, _, here, _⟩ := (reads_quoted ..).mp found
  exact absurd mark (bare q.mark (by rw [split, here]; simp))

theorem passes_repeatFrom {r : Rule α} (passes : r.Passes P) (c : Cursor) (bare : Bare c.rest) :
    ∃ parts, c.rest = parts.flatten ++ (repeatFrom r c).2.rest ∧ List.Forall₂ P (repeatFrom r c).1 parts := by
  fun_induction repeatFrom r c with
  | case1 c first after found shorter more last repeated ih =>
    obtain ⟨front, split, holds⟩ := passes c first after bare found
    rw [repeated] at ih
    obtain ⟨parts, rest, all⟩ := ih (bare.behind split)
    refine ⟨front :: parts, ?_, .cons holds all⟩
    rw [List.flatten_cons, List.append_assoc, ← rest, split]
  | case2 c first after found stuck =>
    obtain ⟨front, split, holds⟩ := passes c first after bare found
    exact ⟨[front], by rw [List.flatten_singleton, split], .cons holds .nil⟩
  | case3 c failure => exact ⟨[], rfl, .nil⟩

theorem passes_many {r : Rule α} (passes : r.Passes P) :
    (many r).Passes fun all passed =>
      ∃ gap parts, passed = gap ++ parts.flatten ∧ Gap gap ∧ List.Forall₂ P all parts := by
  intro c all after bare found
  have same : repeatFrom r ((many r).origin c) = (all, after) := Except.ok.inj found
  have start : ∃ gap, c.rest = gap ++ ((many r).origin c).rest ∧ Gap gap := by
    unfold origin
    split
    · exact c.gap_skipGap
    · exact ⟨[], rfl, gap_nil⟩
  obtain ⟨gap, split, blank⟩ := start
  obtain ⟨parts, rest, holds⟩ := passes_repeatFrom passes _ (bare.behind split)
  rw [same] at rest holds
  exact ⟨gap ++ parts.flatten, by rw [split, rest, List.append_assoc], gap, parts, rfl, blank, holds⟩

end Laws

/-! Parts that keep a property when they are put together. -/

/-- All that the rule passes over has the property. -/
abbrev Over (r : Rule α) (P : List Char → Prop) : Prop := r.Passes fun _ => P

/-- Gaps have the property, and so have two parts that have it, one behind the other. -/
structure Joins (P : List Char → Prop) : Prop where
  gap : ∀ cs, Gap cs → P cs
  append : ∀ front more, P front → P more → P (front ++ more)

theorem joins_flat : Joins Flat := ⟨fun _ => Gap.flat, fun _ _ => Flat.append⟩

theorem joins_sealed (anywhere : Bool) : Joins (Sealed anywhere) :=
  ⟨fun _ gap => gap.flat.sealed anywhere, fun _ _ => Sealed.append⟩

section Joins
variable {P : List Char → Prop}

theorem Joins.bind (joins : Joins P) {r : Rule α} {next : α → Rule β} (first : r.Over P)
    (second : ∀ a, (next a).Over P) : (r >>= next).Over P :=
  Passes.bind first second fun _ _ front more => joins.append front more

theorem Joins.pure (joins : Joins P) (a : α) : (Pure.pure a : Rule α).Over P := passes_pure a (joins.gap [] gap_nil)

theorem Joins.without (joins : Joins P) (name : Shape) (r : Rule α) : (without name r).Over P :=
  (passes_without name r).mono fun _ _ same => same ▸ joins.gap [] gap_nil

theorem Joins.optional (joins : Joins P) {r : Rule α} (across : r.Over P) : (Rule.optional r).Over P := by
  refine (passes_optional across).mono fun found passed holds => ?_
  rcases holds with ⟨_, _, inside⟩ | ⟨_, gap⟩
  · exact inside
  · exact joins.gap passed gap

theorem Joins.many (joins : Joins P) {r : Rule α} (across : r.Over P) : (Rule.many r).Over P := by
  refine (passes_many across).mono fun all passed holds => ?_
  obtain ⟨gap, parts, rfl, blank, each⟩ := holds
  refine joins.append gap _ (joins.gap gap blank) ?_
  induction each with
  | nil => exact joins.gap [] gap_nil
  | cons here _ ih => exact joins.append _ _ here ih

theorem Joins.recognised (joins : Joins P) (name : Shape) (recognise : List Char → Option (α × Nat))
    (known : ∀ cs a size, Bare cs → recognise cs = some (a, size) → P (cs.take size)) :
    (Rule.recognised name recognise).Over P := by
  refine (passes_recognised name recognise known).mono fun a passed holds => ?_
  obtain ⟨gap, more, rfl, blank, inside⟩ := holds
  exact joins.append gap more (joins.gap gap blank) inside

end Joins

theorem Passes.sealed {r : Rule α} (across : r.Over Flat) (anywhere : Bool) : r.Over (Sealed anywhere) :=
  across.mono fun _ _ flat => flat.sealed anywhere

/-- A keyword is spelled without parentheses and commas. -/
theorem flat_keyword (word : String) (plain : Flat (upper word.toList)) : (keyword word).Over Flat := by
  intro c u after _ found
  obtain ⟨same, _, _, rfl⟩ := (reads_keyword ..).mp found
  obtain ⟨gap, split, blank⟩ := c.gap_skipGap
  refine ⟨gap ++ c.skipGap.rest.take word.length, ?_, blank.flat.append ?_⟩
  · rw [Cursor.advance, List.append_assoc, List.take_append_drop, ← split]
  · intro d member
    have own (mark : Char) (single : capitals mark = [mark]) (known : mark ∉ upper word.toList) : d ≠ mark := by
      rintro rfl
      exact known (same ▸ List.mem_flatMap.mpr ⟨d, member, by simp [single]⟩)
    refine ⟨own '(' (by decide) fun inside => ?_, own ')' (by decide) fun inside => ?_,
      own ',' (by decide) fun inside => ?_⟩
    · exact (plain _ inside).1 rfl
    · exact (plain _ inside).2.1 rfl
    · exact (plain _ inside).2.2 rfl

theorem flat_keywords (words : List String) (plain : ∀ word ∈ words, Flat (upper word.toList)) :
    (keywords words).Over Flat := by
  induction words with
  | nil => exact joins_flat.pure ()
  | cons word more ih =>
    obtain ⟨here, later⟩ := List.forall_mem_cons.mp plain
    cases more with
    | nil => exact flat_keyword word here
    | cons next others => exact joins_flat.bind (flat_keyword word here) fun _ => ih later

/-! Parentheses, and lists between them. -/

theorem passes_parenthesized {r : Rule α} {P : α → List Char → Prop} (passes : r.Passes P) :
    (parenthesized r).Passes fun a passed => ∃ gap inside space,
      passed = gap ++ '(' :: (inside ++ (space ++ [')'])) ∧ Gap gap ∧ P a inside ∧ Gap space := by
  intro c a last bare found
  obtain ⟨_, after, head, tail⟩ := (reads_bind ..).mp found
  obtain ⟨value, final, middle, closing⟩ := (reads_bind ..).mp tail
  obtain ⟨_, place, mark, ended⟩ := (reads_bind ..).mp closing
  obtain ⟨rfl, rfl⟩ := (reads_pure ..).mp ended
  obtain ⟨_, split, gap, rfl, blank⟩ := passes_mark '(' c _ after bare head
  obtain ⟨inside, rest, holds⟩ := passes after value final (bare.behind split) middle
  obtain ⟨_, others, space, rfl, empty⟩ := passes_mark ')' final _ place ((bare.behind split).behind rest) mark
  refine ⟨_, ?_, gap, inside, space, rfl, blank, holds, empty⟩
  rw [split, rest, others]
  simp

/-- Parentheses around a part keep it together. -/
theorem Passes.parenthesized {r : Rule α} (across : r.Over (Sealed true)) (anywhere : Bool) :
    (parenthesized r).Over (Sealed anywhere) := by
  refine (passes_parenthesized across).mono fun _ passed holds => ?_
  obtain ⟨gap, inside, space, rfl, blank, kept, empty⟩ := holds
  have group : Sealed anywhere ('(' :: ((inside ++ space) ++ ')' :: [])) :=
    .group (kept.append (empty.flat.sealed true)) .nil
  simpa using (blank.flat.sealed anywhere).append group

/-- One or more parts with commas between them, one for each value. -/
inductive Listed (P : α → List Char → Prop) : List α → List Char → Prop
  | one {a part} (holds : P a part) : Listed P [a] part
  | more {a part all rest} (holds : P a part) (later : Listed P all rest) : Listed P (a :: all) (part ++ ',' :: rest)

section Listed
variable {P : α → List Char → Prop}

/-- A gap at the end belongs to the last part. -/
theorem Listed.append_gap (stable : ∀ a part gap, P a part → Gap gap → P a (part ++ gap)) {all : List α}
    {cs gap : List Char} (listed : Listed P all cs) (blank : Gap gap) : Listed P all (cs ++ gap) := by
  induction listed with
  | one holds => exact .one (stable _ _ gap holds blank)
  | more holds _ ih =>
    rw [List.append_assoc]
    exact .more holds ih

theorem Listed.sealed {all : List α} {cs : List Char} (listed : Listed P all cs)
    (each : ∀ a part, P a part → Sealed false part) : Sealed true cs := by
  induction listed with
  | one holds => exact (each _ _ holds).weaken
  | more holds _ ih => exact (each _ _ holds).weaken.append (.char (by decide) (fun _ => rfl) ih)

/-- Cutting at the commas gives the parts. -/
theorem Listed.cutCommas {all : List α} {cs : List Char} (listed : Listed P all cs)
    (each : ∀ a part, P a part → Sealed false part) : List.Forall₂ P all (cutCommas 0 cs) := by
  have never : false = true → 0 < 0 := fun anywhere => nomatch anywhere
  induction listed with
  | @one a part holds =>
    have whole := (each _ _ holds).cutCommas_append 0 never []
    rw [List.append_nil] at whole
    rw [whole, Text.cutCommas, List.modifyHead_cons, List.append_nil]
    exact .cons holds .nil
  | more holds _ ih =>
    rw [(each _ _ holds).cutCommas_append 0 never, Text.cutCommas, if_pos ⟨rfl, rfl⟩, List.modifyHead_cons,
      List.append_nil]
    exact .cons holds ih

variable {r : Rule α} (stable : ∀ a part gap, P a part → Gap gap → P a (part ++ gap)) (passes : r.Passes P)
include stable passes

theorem passes_listOf : (listOf comma r).Passes (Listed P) := by
  have later : (do
      comma
      r : Rule α).Passes fun a passed => ∃ gap part, passed = gap ++ ',' :: part ∧ Gap gap ∧ P a part := by
    refine Passes.bind (passes_mark ',') (fun _ => passes) fun _ a front part ahead holds => ?_
    obtain ⟨gap, rfl, blank⟩ := ahead
    exact ⟨gap, part, by simp, blank, holds⟩
  -- What stands in front of a comma belongs to the part before it.
  have gathered {all : List α} {parts : List (List Char)}
      (each : List.Forall₂ (fun a passed => ∃ gap part, passed = gap ++ ',' :: part ∧ Gap gap ∧ P a part) all parts)
      {a : α} {first : List Char} (holds : P a first) : Listed P (a :: all) (first ++ parts.flatten) := by
    induction each generalizing a first with
    | nil =>
      rw [List.flatten_nil, List.append_nil]
      exact .one holds
    | cons here _ ih =>
      obtain ⟨gap, part, rfl, blank, next⟩ := here
      have whole := Listed.more (stable a first gap holds blank) (ih next)
      simpa using whole
  intro c all last bare found
  obtain ⟨first, after, head, tail⟩ := (reads_bind ..).mp found
  obtain ⟨more, final, several, ended⟩ := (reads_bind ..).mp tail
  obtain ⟨rfl, rfl⟩ := (reads_pure ..).mp ended
  obtain ⟨front, split, holds⟩ := passes c first after bare head
  obtain ⟨_, rest, gap, parts, rfl, blank, each⟩ := passes_many later after more final (bare.behind split) several
  refine ⟨front ++ (gap ++ parts.flatten), by rw [split, rest]; simp, ?_⟩
  rw [← List.append_assoc]
  exact gathered each (stable first front gap holds blank)

/-- What a list between parentheses passes over. -/
theorem passes_parenthesized_listOf : (parenthesized (listOf comma r)).Passes fun all passed =>
    ∃ gap list, passed = gap ++ '(' :: (list ++ [')']) ∧ Gap gap ∧ Listed P all list := by
  refine (passes_parenthesized (passes_listOf stable passes)).mono fun all passed holds => ?_
  obtain ⟨gap, list, space, rfl, blank, listed, empty⟩ := holds
  exact ⟨gap, list ++ space, by simp, blank, listed.append_gap stable empty⟩

end Listed

end Rule
end SqlSchema.Reader
