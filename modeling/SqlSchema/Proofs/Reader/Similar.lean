import SqlSchema.Proofs.Reader.Keyword
import SqlSchema.Proofs.Reader.Passing
import SqlSchema.Proofs.Text.Caseless
import SqlSchema.Reader.Literal

/-! Texts that look the same to two rules. They have gaps at the same places, however long, and the same characters
between them, as far as what is seen of these tells. Rules cut the same words from both and go on at similar places. -/
namespace SqlSchema.Reader
open Text Cursor

/-- What two runs of the rules are compared by: their dialects, and what is seen of a character. Nothing but its case
may be hidden. -/
structure Comparison where
  first : Dialect
  second : Dialect
  see : Char → Char
  keeps : ∀ c d, see c = see d → c.toLower = d.toLower

namespace Comparison

/-- All of a character is seen. -/
def exact (d e : Dialect) : Comparison := ⟨d, e, id, fun _ _ same => congrArg Char.toLower same⟩

def swap (k : Comparison) : Comparison := { k with first := k.second, second := k.first }

/-- Characters that mean something in one dialect only. -/
def parting : List Char := ['?', '$', ':']

/-- No quote, and nothing in which the dialects differ, if they do. -/
def Usual (k : Comparison) (c : Char) : Prop := c ∉ quotes ∧ (k.first ≠ k.second → c ∉ parting)

theorem same {k : Comparison} {α : Type} {f : Char → α} (caseless : Caseless f) {c d : Char}
    (seen : k.see c = k.see d) : f c = f d := caseless c d (k.keeps c d seen)

theorem usual_swap (k : Comparison) {c d : Char} (seen : k.see c = k.see d) (usual : k.Usual c) : k.swap.Usual d := by
  have quote : Caseless (decide <| · ∈ quotes) := caseless_of_ascii (by decide)
  have part : Caseless (decide <| · ∈ parting) := caseless_of_ascii (by decide)
  have one := same quote seen
  have two := same part seen
  simp only [decide_eq_decide] at one two
  exact ⟨fun member => usual.1 (one.mpr member), fun other member => usual.2 other.symm (two.mpr member)⟩

end Comparison

theorem caseless_isGap : Caseless isGap := caseless_of_ascii (by decide)

/-- A property of characters that does not depend on their case and that no gap has. -/
structure Visible (p : Char → Bool) : Prop where
  caseless : Caseless p
  apart : ∀ c, isGap c = true → p c = false

theorem visible_of_ascii {p : Char → Bool}
    (all : ∀ n < 128, p (Char.ofNat n).toLower = p (Char.ofNat n) ∧
      (isGap (Char.ofNat n) = true → p (Char.ofNat n) = false)) : Visible p := by
  refine ⟨caseless_of_ascii fun n small => (all n small).1, fun c gap => ?_⟩
  have ascii : c.toNat < 128 := by
    simp only [isGap, Bool.or_eq_true, beq_iff_eq, or_assoc] at gap
    rcases gap with rfl | rfl | rfl | rfl <;> decide
  exact forall_ascii (P := fun c => isGap c = true → p c = false) (fun n small => (all n small).2) c ascii gap

theorem visible_beq (c : Char) (other : c.isAlpha = false) (solid : isGap c = false) : Visible (· == c) := by
  refine ⟨caseless_beq other, fun d gap => beq_false_of_ne ?_⟩
  rintro rfl
  rw [solid] at gap
  contradiction

theorem visible_touchesKeyword : Visible Rule.touchesKeyword where
  caseless c d same := by
    unfold Rule.touchesKeyword
    rw [caseless_capitals c d same]
  apart := touches_of_gap

theorem visible_isDigit : Visible isDigit := visible_of_ascii (by decide)

theorem visible_isWord : Visible isWord := visible_of_ascii (by decide)

theorem visible_isHex : Visible isHex := visible_of_ascii (by decide)

theorem visible_isWordStart : Visible Rule.isWordStart := visible_of_ascii (by decide)

theorem visible_isPlainWord : Visible Rule.isPlainWord := visible_of_ascii (by decide)

theorem visible_isNamePart : Visible Rule.isNamePart := visible_of_ascii (by decide)

/-- Texts with the same usual characters between gaps at the same places. -/
inductive Similar (k : Comparison) : List Char → List Char → Prop
  | nil : Similar k [] []
  | cons {c d cs ds} (visible : isGap c = false) (usual : k.Usual c) (same : k.see c = k.see d)
    (rest : Similar k cs ds) : Similar k (c :: cs) (d :: ds)
  | gap {c d cs ds} (first : isGap c = true) (second : isGap d = true)
    (rest : Similar k (cs.dropWhile isGap) (ds.dropWhile isGap)) : Similar k (c :: cs) (d :: ds)

namespace Similar
variable {k : Comparison} {cs ds : List Char}

theorem swap (similar : Similar k cs ds) : Similar k.swap ds cs := by
  induction similar with
  | nil => exact .nil
  | cons visible usual same _ ih =>
    exact .cons ((Comparison.same caseless_isGap same).symm.trans visible) (k.usual_swap same usual) same.symm ih
  | gap first second _ ih => exact .gap second first ih

theorem dropGap (similar : Similar k cs ds) : Similar k (cs.dropWhile isGap) (ds.dropWhile isGap) := by
  cases similar with
  | nil => exact .nil
  | @cons c d cs ds visible usual same rest =>
    have other : isGap d = false := (Comparison.same caseless_isGap same).symm.trans visible
    rw [List.dropWhile_cons_of_neg (by simp [visible]), List.dropWhile_cons_of_neg (by simp [other])]
    exact .cons visible usual same rest
  | gap first second rest =>
    rwa [List.dropWhile_cons_of_pos first, List.dropWhile_cons_of_pos second]

theorem isEmpty (similar : Similar k cs ds) : cs = [] ↔ ds = [] := by
  cases similar <;> simp

theorem head (similar : Similar k cs ds) {p : Char → Bool} (visible : Visible p) :
    cs.head?.any p = ds.head?.any p := by
  cases similar with
  | nil => rfl
  | cons _ _ same _ => exact Comparison.same visible.caseless same
  | gap first second _ =>
    rw [List.head?_cons, List.head?_cons, Option.any_some, Option.any_some, visible.apart _ first,
      visible.apart _ second]

/-- What is seen at the front of one text is at the front of the other. -/
theorem uncons {c : Char} (similar : Similar k (c :: cs) ds) {p : Char → Bool} (visible : Visible p)
    (holds : p c = true) : ∃ d rest, ds = d :: rest ∧ p d = true ∧ k.see c = k.see d ∧ Similar k cs rest := by
  cases similar with
  | cons _ _ same rest => exact ⟨_, _, rfl, (Comparison.same visible.caseless same).symm.trans holds, same, rest⟩
  | gap first _ _ =>
    rw [visible.apart c first] at holds
    contradiction

theorem headGap (similar : Similar k cs ds) : cs.head?.any isGap = ds.head?.any isGap := by
  cases similar with
  | nil => rfl
  | cons _ _ same _ => exact Comparison.same caseless_isGap same
  | gap first second _ =>
    rw [List.head?_cons, List.head?_cons, Option.any_some, Option.any_some, first, second]

end Similar

/-- As many characters look the same, and so do the texts behind them. -/
structure Step (k : Comparison) (n : Nat) (cs ds : List Char) : Prop where
  taken : (cs.take n).map k.see = (ds.take n).map k.see
  rest : Similar k (cs.drop n) (ds.drop n)

namespace Step
variable {k : Comparison} {cs ds : List Char} {m n : Nat}

theorem zero (similar : Similar k cs ds) : Step k 0 cs ds := ⟨rfl, similar⟩

theorem add (first : Step k m cs ds) (second : Step k n (cs.drop m) (ds.drop m)) : Step k (m + n) cs ds where
  taken := by rw [List.take_add, List.take_add, List.map_append, List.map_append, first.taken, second.taken]
  rest := by
    have later := second.rest
    rwa [List.drop_drop, List.drop_drop] at later

theorem cons {c d : Char} (same : k.see c = k.see d) (step : Step k n cs ds) : Step k (n + 1) (c :: cs) (d :: ds) where
  taken := by rw [List.take_succ_cons, List.take_succ_cons, List.map_cons, List.map_cons, same, step.taken]
  rest := step.rest

/-- Characters in front of the next gap are passed in both texts alike. -/
theorem of_visible (similar : Similar k cs ds) (visible : ∀ c ∈ cs.take n, isGap c = false) : Step k n cs ds := by
  induction n generalizing cs ds with
  | zero => exact .zero similar
  | succ n ih =>
    cases similar with
    | nil => exact ⟨rfl, .nil⟩
    | cons _ _ same rest =>
      rw [List.take_succ_cons, List.forall_mem_cons] at visible
      exact .cons same (ih rest visible.2)
    | gap first _ _ =>
      rw [List.take_succ_cons, List.forall_mem_cons, first] at visible
      exact absurd visible.1 (by decide)

end Step

theorem Similar.takeWhile {k : Comparison} {cs ds : List Char} (similar : Similar k cs ds) {p : Char → Bool}
    (visible : Visible p) :
    (cs.takeWhile p).length = (ds.takeWhile p).length ∧ Step k (cs.takeWhile p).length cs ds := by
  induction similar with
  | nil => exact ⟨rfl, .zero .nil⟩
  | @cons c d cs ds solid usual same rest ih =>
    have both := Comparison.same visible.caseless same
    cases holds : p c with
    | false =>
      rw [holds] at both
      rw [List.takeWhile_cons_of_neg (by simp [holds]), List.takeWhile_cons_of_neg (by simp [← both])]
      exact ⟨rfl, .zero (.cons solid usual same rest)⟩
    | true =>
      rw [holds] at both
      rw [List.takeWhile_cons_of_pos holds, List.takeWhile_cons_of_pos both.symm, List.length_cons, List.length_cons]
      exact ⟨congrArg _ ih.1, .cons same ih.2⟩
  | @gap c d cs ds first second rest _ =>
    rw [List.takeWhile_cons_of_neg (by simp [visible.apart c first]),
      List.takeWhile_cons_of_neg (by simp [visible.apart d second])]
    exact ⟨rfl, .zero (.gap first second rest)⟩

/-- Where all of a character is seen, a text looks like itself. -/
theorem similar_self {d e : Dialect} {cs : List Char} (usual : ∀ c ∈ cs, (Comparison.exact d e).Usual c) :
    Similar (.exact d e) cs cs := by
  induction size : cs.length using Nat.strong_induction_on generalizing cs with
  | _ n ih =>
    cases cs with
    | nil => exact .nil
    | cons c cs =>
      rw [List.forall_mem_cons] at usual
      have shorter := (List.dropWhile_suffix (l := cs) isGap).length_le
      rw [List.length_cons] at size
      cases gap : isGap c with
      | false => exact .cons gap usual.1 rfl (ih cs.length (by omega) usual.2 rfl)
      | true =>
        refine .gap gap gap (ih _ (by omega) (fun d member => ?_) rfl)
        exact usual.2 d ((List.dropWhile_suffix isGap).subset member)

/-! Cursors. -/

namespace Cursor

/-- The position tells how much of the text is left. -/
structure Exact (c : Cursor) : Prop where
  fits : c.Fits
  inside : c.rest ≠ [] → c.position + c.rest.length ≤ c.size

theorem exact_start (cs : List Char) : (start cs).Exact := ⟨fits_start cs, fun _ => Nat.le_of_eq (Nat.zero_add _)⟩

theorem Exact.advance {c : Cursor} (exact : c.Exact) (n : Nat) : (c.advance n).Exact := by
  refine ⟨c.fits_advance n exact.fits, fun more => ?_⟩
  have inside := exact.inside fun none => more (by simp [Cursor.advance, none])
  have longer := List.length_pos_iff.mpr more
  simp only [Cursor.advance, List.length_drop] at longer ⊢
  omega

/-- Two places with similar texts behind them. If there is more, a keyword may follow at both or at none. -/
structure Close (k : Comparison) (c c' : Cursor) : Prop where
  rest : Similar k c.rest c'.rest
  previous : c.rest ≠ [] → c.previous.any Rule.touchesKeyword = c'.previous.any Rule.touchesKeyword
  first : c.Exact
  second : c'.Exact

variable {k : Comparison} {c c' : Cursor}

theorem Close.swap (close : Close k c c') : Close k.swap c' c :=
  ⟨close.rest.swap, fun more => (close.previous (mt close.rest.isEmpty.mp more)).symm, close.second, close.first⟩

theorem Close.advance (close : Close k c c') {n : Nat} (step : Step k n c.rest c'.rest) :
    Close k (c.advance n) (c'.advance n) := by
  refine ⟨step.rest, fun more => ?_, close.first.advance n, close.second.advance n⟩
  have last := congrArg List.getLast? step.taken
  rw [List.getLast?_map, List.getLast?_map] at last
  simp only [Cursor.advance]
  cases first : (c.rest.take n).getLast? with
  | none =>
    rw [first, Option.map_none, eq_comm, Option.map_eq_none_iff] at last
    rw [last]
    exact close.previous fun none => more (by rw [Cursor.advance, none, List.drop_nil])
  | some a =>
    rw [first, Option.map_some, eq_comm, Option.map_eq_some_iff] at last
    obtain ⟨b, second, same⟩ := last
    rw [second]
    exact Comparison.same visible_touchesKeyword.caseless same.symm

theorem skipGap_of_visible (c : Cursor) (visible : c.rest.head?.any isGap = false) : c.skipGap = c := by
  have none : c.rest.takeWhile isGap = [] := by
    cases found : c.rest with
    | nil => rfl
    | cons d rest =>
      rw [found] at visible
      exact List.takeWhile_cons_of_neg (by simpa using visible)
  rw [skipGap, none]
  exact c.advance_zero

/-- Behind a gap a keyword may follow. -/
theorem previous_skipGap (c : Cursor) (gap : c.rest.head?.any isGap = true) :
    c.skipGap.previous.any Rule.touchesKeyword = false := by
  have taken : c.rest.take (c.rest.takeWhile isGap).length = c.rest.takeWhile isGap :=
    (List.prefix_iff_eq_take.mp (List.takeWhile_prefix _)).symm
  cases last : (c.rest.takeWhile isGap).getLast? with
  | none =>
    rw [List.getLast?_eq_none_iff] at last
    cases found : c.rest with
    | nil => simp [found] at gap
    | cons d rest =>
      rw [found] at gap last
      rw [List.takeWhile_cons_of_pos (by simpa using gap)] at last
      contradiction
  | some d =>
    have blank := touches_of_gap d (List.mem_takeWhile_imp (List.mem_of_getLast? last))
    simp [skipGap, Cursor.advance, taken, last, blank]

theorem Close.skipGap (close : Close k c c') : Close k c.skipGap c'.skipGap := by
  have same := close.rest.headGap
  cases gap : c.rest.head?.any isGap with
  | false =>
    rw [c.skipGap_of_visible gap, c'.skipGap_of_visible (same.symm.trans gap)]
    exact close
  | true =>
    refine ⟨?_, fun _ => ?_, close.first.advance _, close.second.advance _⟩
    · rw [skipGap_rest, skipGap_rest]
      exact close.rest.dropGap
    · rw [c.previous_skipGap gap, c'.previous_skipGap (same.symm.trans gap)]

/-- Places that are close once gaps are skipped. -/
def Alike (k : Comparison) (c c' : Cursor) : Prop := Close k c.skipGap c'.skipGap

theorem Close.alike (close : Close k c c') : Alike k c c' := close.skipGap

theorem Alike.swap (alike : Alike k c c') : Alike k.swap c' c := Close.swap alike

theorem alike_skipGap : Alike k c.skipGap c'.skipGap ↔ Alike k c c' := by
  rw [Alike, skipGap_skipGap, skipGap_skipGap, Alike]

theorem skipGap_origin {α : Type} (r : Rule α) (c : Cursor) : (r.origin c).skipGap = c.skipGap := by
  unfold Rule.origin
  split
  · exact c.skipGap_skipGap
  · rfl

end Cursor
end SqlSchema.Reader
