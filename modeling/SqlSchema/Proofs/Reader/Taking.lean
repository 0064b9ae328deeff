import Mathlib.Data.List.DropRight
import SqlSchema.Proofs.Reader.Keyword

/-! Reading a text that is known in advance. A rule takes a text if it reads it wherever it stands, whatever gap is in
front of it, and leaves a known rest; each way of making a rule from others has a law that puts such texts together. -/
namespace SqlSchema.Reader
open Text

namespace Cursor

/-- The text is all that is left to read, gaps in front not counted. -/
structure At (c : Cursor) (cs : List Char) : Prop where
  rest : c.rest.dropWhile isGap = cs.dropWhile isGap
  clear : c.Clear
  fits : c.Fits

theorem at_start (cs : List Char) : (start cs).At cs := ⟨rfl, clear_start cs, fits_start cs⟩

variable {c after : Cursor} {cs rest : List Char}

theorem skipGap_suffix (c : Cursor) : c.skipGap.rest <:+ c.rest := by
  rw [skipGap_rest]
  exact List.dropWhile_suffix _

theorem dropWhile_gap_idem (cs : List Char) : (cs.dropWhile isGap).dropWhile isGap = cs.dropWhile isGap :=
  List.dropWhile_idempotent ..

theorem At.skipGap (here : c.At cs) : c.skipGap.At cs := by
  refine ⟨?_, c.clear_skipGap here.clear, c.fits_skipGap here.fits⟩
  rw [skipGap_rest, dropWhile_gap_idem, here.rest]

theorem At.visible (here : c.At cs) (seen : cs.head?.any isGap = false) : c.skipGap.rest = cs := by
  rw [skipGap_rest, here.rest]
  cases cs with
  | nil => rfl
  | cons first more => exact List.dropWhile_cons_of_neg (by simpa using seen)

/-- A gap more or less makes no difference. -/
theorem at_gap (g : Char) (gap : isGap g = true) : c.At (g :: cs) ↔ c.At cs := by
  have same : (g :: cs).dropWhile isGap = cs.dropWhile isGap := List.dropWhile_cons_of_pos gap
  constructor
  · intro here
    exact ⟨here.rest.trans same, here.clear, here.fits⟩
  · intro here
    exact ⟨here.rest.trans same.symm, here.clear, here.fits⟩

/-- The text begins with something that can be seen. -/
def Seen (front : List Char) : Prop := front.head?.any (!isGap ·) = true

instance (front : List Char) : Decidable (Seen front) := inferInstanceAs (Decidable (_ = _))

theorem Seen.split {front : List Char} (seen : Seen front) :
    ∃ first more, front = first :: more ∧ isGap first = false := by
  unfold Seen at seen
  cases front with
  | nil => simp at seen
  | cons first more => exact ⟨first, more, rfl, by simpa using seen⟩

theorem At.front {front : List Char} (here : c.At (front ++ rest)) (seen : Seen front) :
    c.skipGap.rest = front ++ rest := by
  obtain ⟨first, more, rfl, visible⟩ := seen.split
  exact here.visible (by simp [visible])

/-- A word that begins here is not torn. -/
theorem At.free {front : List Char} (here : c.At (front ++ rest)) (seen : Seen front)
    (touches : front.head?.any Rule.touchesKeyword = true) : c.skipGap.previous.any Rule.touchesKeyword = false := by
  rcases c.clear_skipGap here.clear with alone | apart
  · exact alone
  · obtain ⟨first, more, rfl, _⟩ := seen.split
    rw [here.front seen, List.cons_append, List.head?_cons] at apart
    rw [List.head?_cons, apart] at touches
    contradiction

/-- The place behind the front of the text, where no word is torn. -/
theorem At.behind {front : List Char} (here : c.At (front ++ rest)) (seen : Seen front)
    (apart : front.getLast?.any Rule.touchesKeyword = false ∨ rest.head?.any Rule.touchesKeyword = false) :
    (c.skipGap.advance front.length).At rest ∧ (c.skipGap.advance front.length).rest <:+ c.rest := by
  have left : (c.skipGap.advance front.length).rest = rest := by rw [advance, here.front seen, List.drop_left]
  refine ⟨⟨congrArg _ left, ?_, Cursor.fits_advance _ _ (c.fits_skipGap here.fits)⟩, ?_⟩
  · rcases apart with quiet | ended
    · left
      obtain ⟨first, more, rfl, _⟩ := seen.split
      rw [advance, here.front seen, List.take_left]
      cases last : (first :: more).getLast? with
      | none => simp at last
      | some l => rwa [last] at quiet
    · right
      rwa [left]
  · exact (List.drop_suffix _ _).trans c.skipGap_suffix

end Cursor

namespace Rule

variable {α β : Type} {r : Rule α} {cs mid rest : List Char} {a : α}

/-- Wherever the text stands, the rule reads the value and leaves the rest. -/
def Takes (r : Rule α) (cs : List Char) (a : α) (rest : List Char) : Prop :=
  ∀ c : Cursor, c.At cs → ∃ after, r.Reads c a after ∧ after.At rest ∧ after.rest <:+ c.rest

/-- Wherever the text stands, the rule fails. -/
def Refuses (r : Rule α) (cs : List Char) : Prop := ∀ c : Cursor, c.At cs → r.Fails c

theorem takes_gap (g : Char) (gap : Cursor.isGap g = true) : Takes r (g :: cs) a rest ↔ Takes r cs a rest := by
  simp only [Takes, Cursor.at_gap g gap]

theorem refuses_gap (g : Char) (gap : Cursor.isGap g = true) : Refuses r (g :: cs) ↔ Refuses r cs := by
  simp only [Refuses, Cursor.at_gap g gap]

theorem takes_blank (gap : List Char) (blank : ∀ c ∈ gap, Cursor.isGap c = true) (taken : r.Takes cs a rest) :
    r.Takes (gap ++ cs) a rest := by
  induction gap with
  | nil => exact taken
  | cons g gap ih =>
    obtain ⟨here, later⟩ := List.forall_mem_cons.mp blank
    exact (takes_gap g here).mpr (ih later)

theorem refuses_blank (gap : List Char) (blank : ∀ c ∈ gap, Cursor.isGap c = true) (refused : r.Refuses cs) :
    r.Refuses (gap ++ cs) := by
  induction gap with
  | nil => exact refused
  | cons g gap ih =>
    obtain ⟨here, later⟩ := List.forall_mem_cons.mp blank
    exact (refuses_gap g here).mpr (ih later)

theorem takes_spaces (n : Nat) (taken : Takes r cs a rest) : Takes r (List.replicate n ' ' ++ cs) a rest :=
  takes_blank _ (fun c member => by rw [(List.mem_replicate.mp member).2]; decide) taken

theorem takes_pure (a : α) (cs : List Char) : Takes (pure a) cs a cs :=
  fun c here => ⟨c, (reads_pure ..).mpr ⟨rfl, rfl⟩, here, List.suffix_rfl⟩

theorem Takes.bind {next : α → Rule β} {b : β} (first : Takes r cs a mid) (second : Takes (next a) mid b rest) :
    Takes (r >>= next) cs b rest := by
  intro c here
  obtain ⟨place, head, there, shorter⟩ := first c here
  obtain ⟨after, tail, last, shortest⟩ := second place there
  exact ⟨after, (reads_bind ..).mpr ⟨a, place, head, tail⟩, last, shortest.trans shorter⟩

theorem Refuses.bind {next : α → Rule β} (first : Refuses r cs) : Refuses (r >>= next) cs :=
  fun c here => (fails_bind ..).mpr (.inl (first c here))

theorem Takes.refuses {next : α → Rule β} (first : Takes r cs a mid) (second : Refuses (next a) mid) :
    Refuses (r >>= next) cs := by
  intro c here
  obtain ⟨place, head, there, _⟩ := first c here
  exact (fails_bind ..).mpr (.inr ⟨a, place, head, second place there⟩)

theorem Takes.optional (taken : Takes r cs a rest) : Takes (optional r) cs (some a) rest := by
  intro c here
  obtain ⟨after, reads, last, shorter⟩ := taken c here
  exact ⟨after, (reads_optional ..).mpr (.inl ⟨a, rfl, reads⟩), last, shorter⟩

theorem origin_at (r : Rule α) {c : Cursor} (here : c.At cs) : (r.origin c).At cs ∧ (r.origin c).rest <:+ c.rest := by
  unfold origin
  split
  · exact ⟨here.skipGap, c.skipGap_suffix⟩
  · exact ⟨here, List.suffix_rfl⟩

theorem Refuses.optional (refused : Refuses r cs) : Takes (optional r) cs none cs := by
  intro c here
  have still := origin_at r here
  exact ⟨r.origin c, (reads_optional ..).mpr (.inr ⟨rfl, refused c here, rfl⟩), still.1, still.2⟩

theorem Refuses.without (name : Shape) (refused : Refuses r cs) : Takes (without name r) cs () cs :=
  fun c here => ⟨c, (reads_without ..).mpr ⟨refused c here, rfl⟩, here, List.suffix_rfl⟩

theorem Takes.without (name : Shape) (taken : Takes r cs a rest) : Refuses (without name r) cs := by
  intro c here
  obtain ⟨after, reads, _⟩ := taken c here
  rw [fails_iff]
  intro u last found
  exact reads.not_fails ((reads_without ..).mp found).1

theorem Takes.choice (name : Shape) {more : List (Rule α)} (taken : Takes r cs a rest) :
    Takes (choice name (r :: more)) cs a rest := by
  intro c here
  obtain ⟨after, reads, last, shorter⟩ := taken c here
  exact ⟨after, (reads_choice ..).mpr (.inl reads), last, shorter⟩

theorem Refuses.choice {name : Shape} {more : List (Rule α)} (refused : Refuses r cs)
    (taken : Takes (choice name more) cs a rest) : Takes (choice name (r :: more)) cs a rest := by
  intro c here
  obtain ⟨after, reads, last, shorter⟩ := taken c here
  exact ⟨after, (reads_choice ..).mpr (.inr ⟨refused c here, (reads_choice ..).mp reads⟩), last, shorter⟩

theorem takes_choice_append {name : Shape} {front more : List (Rule α)} (refused : ∀ r ∈ front, Refuses r cs)
    (taken : Takes (Rule.choice name more) cs a rest) : Takes (Rule.choice name (front ++ more)) cs a rest := by
  induction front with
  | nil => exact taken
  | cons r front ih =>
    rw [List.forall_mem_cons] at refused
    exact refused.1.choice (ih refused.2)

theorem refuses_choice (name : Shape) (rules : List (Rule α)) (refused : ∀ r ∈ rules, Refuses r cs) :
    Refuses (Rule.choice name rules) cs :=
  fun c here => (fails_choice ..).mpr fun r member => refused r member c here

/-! Rules that are told only in part. -/

/-- Wherever the text stands, the rule does not fail. -/
def Accepts (r : Rule α) (cs : List Char) : Prop := ∀ c : Cursor, c.At cs → ¬ r.Fails c

theorem Takes.accepts (taken : r.Takes cs a rest) : r.Accepts cs := by
  intro c place
  obtain ⟨after, reads, _⟩ := taken c place
  exact reads.not_fails

theorem Takes.bind_accepts {next : α → Rule β} (first : r.Takes cs a mid) (second : (next a).Accepts mid) :
    (r >>= next).Accepts cs := by
  intro c place failed
  obtain ⟨after, reads, there, _⟩ := first c place
  rcases (fails_bind ..).mp failed with head | ⟨b, last, again, tail⟩
  · exact reads.not_fails head
  · obtain ⟨rfl, rfl⟩ := reads.unique again
    exact second after there tail

theorem accepts_choice (name : Shape) {rules : List (Rule α)} (member : r ∈ rules) (accepted : r.Accepts cs) :
    (choice name rules).Accepts cs :=
  fun c place failed => accepted c place ((fails_choice ..).mp failed r member)

theorem Accepts.without (name : Shape) (accepted : r.Accepts cs) : (without name r).Refuses cs := by
  intro c place
  rw [fails_iff]
  intro u after found
  exact accepted c place ((reads_without ..).mp found).1

/-- Whatever the rule reads where the text stands has the property. -/
def YieldsAt (r : Rule α) (cs : List Char) (P : α → Prop) : Prop :=
  ∀ c a after, c.At cs → r.Reads c a after → P a

theorem Yields.at {P : α → Prop} (each : r.Yields P) (cs : List Char) : r.YieldsAt cs P :=
  fun c a after _ found => each c a after found

theorem Refuses.yieldsAt (refused : r.Refuses cs) (P : α → Prop) : r.YieldsAt cs P :=
  fun c _ _ place found => absurd (refused c place) found.not_fails

theorem Takes.bind_yieldsAt {next : α → Rule β} {P : β → Prop} (first : r.Takes cs a mid)
    (second : (next a).YieldsAt mid P) : (r >>= next).YieldsAt cs P := by
  intro c b last place found
  obtain ⟨value, after, head, tail⟩ := (reads_bind ..).mp found
  obtain ⟨spot, reads, there, _⟩ := first c place
  obtain ⟨rfl, rfl⟩ := reads.unique head
  exact second spot b last there tail

theorem YieldsAt.bind_yields {next : α → Rule β} {P : α → Prop} {Q : β → Prop} (first : r.YieldsAt cs P)
    (second : ∀ a, P a → (next a).Yields Q) : (r >>= next).YieldsAt cs Q := by
  intro c b last place found
  obtain ⟨value, after, head, tail⟩ := (reads_bind ..).mp found
  exact second value (first c value after place head) after b last tail

theorem yieldsAt_choice (name : Shape) {rules : List (Rule α)} {P : α → Prop} (each : ∀ r ∈ rules, r.YieldsAt cs P) :
    (choice name rules).YieldsAt cs P := by
  intro c a after place found
  obtain ⟨r, member, reads⟩ := ((reads_choice ..).mp found).exists_mem
  exact each r member c a after place reads

/-! Repetitions. A round must leave less to read than it found, gaps not counted. -/

/-- The rounds of a repetition give these values and leave the rest. -/
def Repeats (r : Rule α) (cs : List Char) (all : List α) (rest : List Char) : Prop :=
  ∀ c : Cursor, c.At cs → ∃ after, repeatFrom r c = (all, after) ∧ after.At rest ∧ after.rest <:+ c.rest

theorem Refuses.repeats (refused : Refuses r cs) : Repeats r cs [] cs := by
  intro c here
  obtain ⟨failure, failed⟩ := refused c here
  refine ⟨c, ?_, here, List.suffix_rfl⟩
  rw [repeatFrom]
  simp only [failed]

theorem Takes.repeats {all : List α} (taken : Takes r cs a mid)
    (shorter : (mid.dropWhile Cursor.isGap).length < (cs.dropWhile Cursor.isGap).length)
    (later : Repeats r mid all rest) : Repeats r cs (a :: all) rest := by
  intro c here
  obtain ⟨place, reads, there, suffix⟩ := taken c here
  obtain ⟨after, repeated, last, shortest⟩ := later place there
  have progress : place.rest.length < c.rest.length := by
    refine Nat.lt_of_le_of_ne suffix.length_le fun same => ?_
    have equal := suffix.eq_of_length same
    have left := congrArg (List.dropWhile Cursor.isGap) equal
    rw [there.rest, here.rest] at left
    exact absurd shorter (by rw [left]; exact Nat.lt_irrefl _)
  refine ⟨after, ?_, last, shortest.trans suffix⟩
  rw [Reads] at reads
  rw [repeatFrom]
  simp only [reads, progress, if_true, repeated]

theorem Repeats.many {all : List α} (repeats : Repeats r cs all rest) : Takes (many r) cs all rest := by
  intro c here
  have still := origin_at r here
  obtain ⟨after, repeated, last, shorter⟩ := repeats (r.origin c) still.1
  exact ⟨after, congrArg Except.ok repeated, last, shorter.trans still.2⟩

theorem takes_endOfText : Takes endOfText [] () [] := by
  intro c here
  have empty : c.skipGap.rest = [] := here.visible rfl
  have inside := here.skipGap.fits
  rw [Cursor.Fits, empty] at inside
  exact ⟨c.skipGap, (reads_endOfText ..).mpr ⟨inside, rfl⟩, here.skipGap, c.skipGap_suffix⟩

/-- A rule that takes a whole text reads it. -/
theorem Takes.readAll (taken : Takes r cs a []) : r.readAll cs = .ok a := by
  obtain ⟨after, reads, last, _⟩ := taken _ (Cursor.at_start cs)
  obtain ⟨place, ended, _⟩ := takes_endOfText after last
  exact (readAll_eq_ok ..).mpr ⟨after, reads, place, ended⟩

end Rule
end SqlSchema.Reader
