import Mathlib.Tactic.SplitIfs
import SqlSchema.Proofs.Text.Caseless
import SqlSchema.Text.Blank
import SqlSchema.Text.Digit
import SqlSchema.Text.Quoted
import SqlSchema.Text.Tabs
import SqlSchema.Text.Word

/-! Texts in small letters. Only letters of ASCII are changed, so a text keeps its length, its white space, its words
and its quotes, and is cut at the same places. -/
namespace SqlSchema.Text

def lower (cs : List Char) : List Char := cs.map Char.toLower

@[simp] theorem lower_nil : lower [] = [] := rfl

@[simp] theorem lower_cons (c : Char) (cs : List Char) : lower (c :: cs) = c.toLower :: lower cs := rfl

@[simp] theorem lower_append (cs ds : List Char) : lower (cs ++ ds) = lower cs ++ lower ds := List.map_append

@[simp] theorem length_lower (cs : List Char) : (lower cs).length = cs.length := List.length_map _

@[simp] theorem lower_eq_nil {cs : List Char} : lower cs = [] ↔ cs = [] := List.map_eq_nil_iff

theorem lower_reverse (cs : List Char) : lower cs.reverse = (lower cs).reverse := List.map_reverse

theorem toList_toLower (s : String) : s.toLower.toList = lower s.toList := String.toList_map

theorem toLower_inj {s s' : String} : s.toLower = s'.toLower ↔ lower s.toList = lower s'.toList := by
  rw [← String.toList_inj, toList_toLower, toList_toLower]

theorem getLast?_lower (cs : List Char) : (lower cs).getLast? = cs.getLast?.map Char.toLower := List.getLast?_map

/-- Small letters are small, and nothing else has a small letter. -/
theorem toLower_toLower (c : Char) : c.toLower.toLower = c.toLower := by
  by_cases ascii : c.toNat < 128
  · exact forall_ascii (P := fun c => c.toLower.toLower = c.toLower) (by decide) c ascii
  · rw [toLower_of_foreign c ascii, toLower_of_foreign c ascii]

@[simp] theorem lower_lower (cs : List Char) : lower (lower cs) = lower cs := by
  rw [lower, lower, List.map_map]
  exact congrArg (List.map · cs) (funext toLower_toLower)

theorem Caseless.lowered {α : Type} {f : Char → α} (caseless : Caseless f) (c : Char) : f c.toLower = f c :=
  caseless _ _ (toLower_toLower c)

theorem caseless_iff {α : Type} {f : Char → α} : Caseless f ↔ ∀ c, f c.toLower = f c := by
  refine ⟨Caseless.lowered, fun small c d same => ?_⟩
  rw [← small c, same, small d]

/-- Signs and digits stay as they are, and no letter becomes one. -/
theorem toLower_eq_iff {c d : Char} (sign : d.isAlpha = false) : c.toLower = d ↔ c = d := by
  have same := (caseless_beq sign).lowered c
  rw [Bool.eq_iff_iff, beq_iff_eq, beq_iff_eq] at same
  exact same

theorem toLower_eq_self {c : Char} (sign : c.isAlpha = false) : c.toLower = c := (toLower_eq_iff sign).mpr rfl

/-- Signs at the front of a text in small letters are signs of the text. -/
theorem eq_append_of_lower {cs rest : List Char} (front : List Char) (signs : ∀ c ∈ front, c.isAlpha = false)
    (same : lower cs = front ++ rest) : ∃ more, cs = front ++ more ∧ lower more = rest := by
  obtain ⟨first, more, rfl, taken, behind⟩ := List.map_eq_append_iff.mp same
  refine ⟨more, ?_, behind⟩
  have own (c : Char) (member : c ∈ first) : c.toLower = c :=
    ((toLower_eq_iff (signs _ (taken ▸ List.mem_map_of_mem member))).mp rfl).symm
  rw [← taken, List.map_congr_left own, List.map_id']

theorem eq_of_lower {cs : List Char} (front : List Char) (signs : ∀ c ∈ front, c.isAlpha = false)
    (same : lower cs = front) : cs = front := by
  obtain ⟨more, found, rest⟩ := eq_append_of_lower front signs (same.trans (List.append_nil front).symm)
  rw [found, lower_eq_nil.mp rest, List.append_nil]

theorem eq_cons_of_lower {cs rest : List Char} {c : Char} (same : lower cs = c :: rest) :
    ∃ d more, cs = d :: more ∧ d.toLower = c ∧ lower more = rest := List.map_eq_cons_iff.mp same

theorem not_pair_lower {c : Char} {rest : List Char} {a b : Char} (first : a.isAlpha = false)
    (second : b.isAlpha = false) (pair : ∀ more, c = a → rest = b :: more → False) (more : List Char)
    (one : c.toLower = a) (two : lower rest = b :: more) : False := by
  obtain ⟨behind, rfl, _⟩ := eq_append_of_lower [b] (by simpa using second) two
  exact pair behind ((toLower_eq_iff first).mp one) rfl

section
variable {p : Char → Bool} (caseless : Caseless p) (cs : List Char)
include caseless

theorem comp_toLower : p ∘ Char.toLower = p := funext caseless.lowered

theorem takeWhile_lower : (lower cs).takeWhile p = lower (cs.takeWhile p) := by
  rw [lower, List.takeWhile_map, comp_toLower caseless, lower]

theorem dropWhile_lower : (lower cs).dropWhile p = lower (cs.dropWhile p) := by
  rw [lower, List.dropWhile_map, comp_toLower caseless, lower]

end

theorem caseless_isBlank : Caseless isBlank := caseless_of_ascii (by decide +kernel)

theorem caseless_isLineEnd : Caseless isLineEnd := caseless_of_ascii (by decide)

theorem caseless_isDigit : Caseless isDigit := caseless_of_ascii (by decide)

theorem caseless_isWord : Caseless isWord := caseless_of_ascii (by decide)

/-! Trimming and words. -/

theorem trimLeft_lower (cs : List Char) : trimLeft (lower cs) = lower (trimLeft cs) :=
  dropWhile_lower caseless_isBlank cs

theorem trimRight_lower (cs : List Char) : trimRight (lower cs) = lower (trimRight cs) := by
  rw [trimRight, trimRight, ← lower_reverse, dropWhile_lower caseless_isBlank, lower_reverse]

theorem trim_lower (cs : List Char) : trim (lower cs) = lower (trim cs) := by
  rw [trim, trim, trimLeft_lower, trimRight_lower]

theorem firstWord_lower (cs : List Char) : firstWord (lower cs) = lower (firstWord cs) := by
  rw [firstWord, firstWord, trimLeft_lower, takeWhile_lower (caseless_isBlank.comp (!·))]

theorem upper_lower (cs : List Char) : upper (lower cs) = upper cs := by
  rw [upper, upper, lower, List.flatMap_map]
  exact congrArg (List.flatMap · cs) (funext caseless_capitals.lowered)

/-! Tabs. -/

theorem expandFrom_lower (column : Nat) (cs : List Char) :
    expandFrom column (lower cs) = lower (expandFrom column cs) := by
  induction cs generalizing column with
  | nil => rfl
  | cons c cs ih =>
    have tab : c.toLower = '\t' ↔ c = '\t' := toLower_eq_iff (by decide)
    have feed : c.toLower = '\n' ↔ c = '\n' := toLower_eq_iff (by decide)
    have back : c.toLower = '\r' ↔ c = '\r' := toLower_eq_iff (by decide)
    have spaces (n : Nat) : lower (List.replicate n ' ') = List.replicate n ' ' := List.map_replicate
    rw [lower_cons, expandFrom, expandFrom]
    simp only [tab, feed, back, ih]
    split
    · rw [lower_append, spaces]
    · split <;> rfl

theorem expandTabs_lower (cs : List Char) : expandTabs (lower cs) = lower (expandTabs cs) := expandFrom_lower 0 cs

/-! Quotes. -/

/-- A quote is closed at the same place. -/
theorem Quoting.close_lower (q : Quoting) (sign : q.mark.isAlpha = false) :
    ∀ cs, q.close (lower cs) = (q.close cs).map (Prod.map lower lower)
  | [] => rfl
  | [c] => by
    have mark : c.toLower = q.mark ↔ c = q.mark := toLower_eq_iff sign
    rw [lower_cons, lower_nil, close, close]
    simp only [mark]
    split <;> rfl
  | c :: d :: rest => by
    have mark (c : Char) : c.toLower = q.mark ↔ c = q.mark := toLower_eq_iff sign
    have slash : c.toLower = '\\' ↔ c = '\\' := toLower_eq_iff (by decide)
    have feed : d.toLower = '\n' ↔ d = '\n' := toLower_eq_iff (by decide)
    have short := close_lower q sign rest
    have next := close_lower q sign (d :: rest)
    rw [lower_cons] at next
    rw [lower_cons, lower_cons, close, close]
    simp only [mark, slash, feed, caseless_isLineEnd.lowered, short, next]
    cases q.close rest <;> cases q.close (d :: rest) <;> split_ifs <;> rfl

end SqlSchema.Text
