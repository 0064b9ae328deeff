import Mathlib.Data.List.Forall2
import SqlSchema.Proofs.Text.Tabs

/-! What stands between parentheses, and the parts that commas cut it into. Parentheses inside are kept together with
everything between them. -/
namespace SqlSchema.Text

/-- How many parentheses are open behind the character. -/
def level (n : Nat) (c : Char) : Nat := if c = '(' then n + 1 else if c = ')' then n - 1 else n

/-- The text up to the parenthesis that closes one more than were opened. -/
def upToClosing (n : Nat) : List Char → Option (List Char)
  | [] => none
  | c :: rest => if c = ')' ∧ n = 0 then some [] else (upToClosing (level n c) rest).map (c :: ·)

/-- What stands between the first parenthesis and the one that closes it. -/
def enclosed (cs : List Char) : Option (List Char) := upToClosing 0 (cs.dropWhile (· != '(')).tail

/-- The parts of a text between the commas outside parentheses, where `n` of them are open in front. -/
def cutCommas (n : Nat) : List Char → List (List Char)
  | [] => [[]]
  | c :: rest => if c = ',' ∧ n = 0 then [] :: cutCommas 0 rest else (cutCommas (level n c) rest).modifyHead (c :: ·)

/-- Every parenthesis has a partner, and commas stand between them unless they may stand anywhere. -/
inductive Sealed : Bool → List Char → Prop
  | nil {anywhere} : Sealed anywhere []
  | char {anywhere c rest} (plain : c ≠ '(' ∧ c ≠ ')') (comma : c = ',' → anywhere = true)
    (more : Sealed anywhere rest) : Sealed anywhere (c :: rest)
  | group {anywhere inside rest} (within : Sealed true inside) (more : Sealed anywhere rest) :
    Sealed anywhere ('(' :: (inside ++ ')' :: rest))

/-- Neither parentheses nor commas. -/
def Flat (cs : List Char) : Prop := ∀ c ∈ cs, c ≠ '(' ∧ c ≠ ')' ∧ c ≠ ','

instance (cs : List Char) : Decidable (Flat cs) := inferInstanceAs (Decidable (∀ _ ∈ _, _))

theorem Flat.append {front more : List Char} (first : Flat front) (second : Flat more) : Flat (front ++ more) :=
  List.forall_mem_append.mpr ⟨first, second⟩

theorem Flat.sealed {cs : List Char} (flat : Flat cs) (anywhere : Bool) : Sealed anywhere cs := by
  induction cs with
  | nil => exact .nil
  | cons c rest ih =>
    obtain ⟨⟨opening, closing, comma⟩, later⟩ := List.forall_mem_cons.mp flat
    exact .char ⟨opening, closing⟩ (fun same => absurd same comma) (ih later)

namespace Sealed
variable {anywhere : Bool} {front more cs : List Char}

theorem append (first : Sealed anywhere front) (second : Sealed anywhere more) : Sealed anywhere (front ++ more) := by
  induction first with
  | nil => exact second
  | char plain comma _ ih => exact .char plain comma (ih second)
  | group within _ _ ih =>
    have whole := group within (ih second)
    simpa using whole

theorem weaken (closed : Sealed anywhere cs) : Sealed true cs := by
  induction closed with
  | nil => exact .nil
  | char plain _ _ ih => exact .char plain (fun _ => rfl) ih
  | group within _ _ ih => exact .group within ih

theorem upToClosing_append (closed : Sealed anywhere cs) (n : Nat) (rest : List Char) :
    upToClosing n (cs ++ rest) = (upToClosing n rest).map (cs ++ ·) := by
  induction closed generalizing n rest with
  | nil => simp
  | @char _ c _ plain _ _ ih =>
    rw [List.cons_append, upToClosing, if_neg fun both => plain.2 both.1, level, if_neg plain.1, if_neg plain.2, ih,
      Option.map_map]
    rfl
  | group _ _ within ih =>
    have opening : level n '(' = n + 1 := rfl
    have closing : level (n + 1) ')' = n := rfl
    rw [List.cons_append, List.append_assoc, upToClosing, if_neg fun both => absurd both.1 (by decide), opening, within,
      List.cons_append, upToClosing, if_neg (by simp), closing, ih, Option.map_map, Option.map_map, Option.map_map]
    congr 1
    funext more
    simp

theorem cutCommas_append (closed : Sealed anywhere cs) (n : Nat) (inside : anywhere = true → 0 < n) (rest : List Char) :
    cutCommas n (cs ++ rest) = (cutCommas n rest).modifyHead (cs ++ ·) := by
  induction closed generalizing n rest with
  | nil => exact (congrFun List.modifyHead_id _).symm
  | @char _ c _ plain comma _ ih =>
    have kept : ¬ (c = ',' ∧ n = 0) := fun both => absurd (inside (comma both.1)) (by omega)
    rw [List.cons_append, cutCommas, if_neg kept, level, if_neg plain.1, if_neg plain.2, ih n inside,
      List.modifyHead_modifyHead]
    rfl
  | group _ _ within ih =>
    have opening : level n '(' = n + 1 := rfl
    have closing : level (n + 1) ')' = n := rfl
    rw [List.cons_append, List.append_assoc, cutCommas, if_neg fun both => absurd both.1 (by decide), opening,
      within (n + 1) (fun _ => Nat.succ_pos n), List.cons_append, cutCommas, if_neg (by simp), closing, ih n inside]
    simp only [List.modifyHead_modifyHead]
    congr 1
    funext more
    simp

end Sealed

theorem enclosed_of_flat {front inside rest : List Char} (flat : Flat front) (closed : Sealed true inside) :
    enclosed (front ++ '(' :: (inside ++ ')' :: rest)) = some inside := by
  have passed : ∀ c ∈ front, (c != '(') = true := fun c member => by simpa using (flat c member).1
  rw [enclosed, List.dropWhile_append_of_pos passed, List.dropWhile_cons_of_neg (by decide), List.tail_cons,
    closed.upToClosing_append, upToClosing, if_pos ⟨rfl, rfl⟩, Option.map_some, List.append_nil]

theorem upToClosing_append_right {n : Nat} {cs inside : List Char} (found : upToClosing n cs = some inside)
    (more : List Char) : upToClosing n (cs ++ more) = some inside := by
  induction cs generalizing n inside with
  | nil => contradiction
  | cons c rest ih =>
    rw [upToClosing] at found
    rw [List.cons_append, upToClosing]
    split at found
    next last => rw [if_pos last, ← found]
    next on =>
      obtain ⟨later, same, rfl⟩ := Option.map_eq_some_iff.mp found
      rw [if_neg on, ih same, Option.map_some]

/-- What follows makes no difference. -/
theorem enclosed_append {cs inside : List Char} (found : enclosed cs = some inside) (more : List Char) :
    enclosed (cs ++ more) = some inside := by
  have opened : cs.dropWhile (· != '(') ≠ [] := by
    intro empty
    rw [enclosed, empty] at found
    contradiction
  rw [enclosed, List.dropWhile_append, if_neg (by simpa using opened), List.tail_append_of_ne_nil opened]
  exact upToClosing_append_right found more

/-! Tabs. -/

/-- The second text is the first one with spaces in place of some tabs. -/
inductive Filled : List Char → List Char → Prop
  | nil : Filled [] []
  | char {cs ds} (c : Char) (more : Filled cs ds) : Filled (c :: cs) (c :: ds)
  | tab {cs ds} (n : Nat) (more : Filled cs ds) : Filled ('\t' :: cs) (List.replicate (n + 1) ' ' ++ ds)

theorem filled_expandFrom (column : Nat) (cs : List Char) : Filled cs (expandFrom column cs) := by
  induction cs generalizing column with
  | nil => exact .nil
  | cons c rest ih =>
    rw [expandFrom]
    split
    next tab =>
      have width : 8 - column % 8 = (7 - column % 8) + 1 := by omega
      dsimp only
      rw [tab, width]
      exact .tab _ (ih _)
    next =>
      split
      · exact .char c (ih 0)
      · exact .char c (ih (column + 1))

namespace Filled
variable {cs ds : List Char}

theorem flat_spaces (n : Nat) : Flat (List.replicate n ' ') := by
  intro c member
  rw [(List.mem_replicate.mp member).2]
  decide

theorem forall_mem {P : Char → Prop} (filled : Filled cs ds) (space : P ' ') (all : ∀ c ∈ cs, P c) : ∀ c ∈ ds, P c := by
  induction filled with
  | nil => exact all
  | char c _ ih =>
    obtain ⟨here, later⟩ := List.forall_mem_cons.mp all
    exact List.forall_mem_cons.mpr ⟨here, ih later⟩
  | tab n _ ih =>
    refine List.forall_mem_append.mpr ⟨fun c member => ?_, ih (List.forall_mem_cons.mp all).2⟩
    rw [(List.mem_replicate.mp member).2]
    exact space

theorem upToClosing {inside : List Char} (filled : Filled cs ds) (n : Nat)
    (found : Text.upToClosing n ds = some inside) :
    ∃ original, Text.upToClosing n cs = some original ∧ Filled original inside := by
  induction filled generalizing n inside with
  | nil => contradiction
  | char c _ ih =>
    rw [Text.upToClosing] at found ⊢
    split at found
    next last =>
      cases found
      exact ⟨[], if_pos last, .nil⟩
    next on =>
      obtain ⟨later, same, rfl⟩ := Option.map_eq_some_iff.mp found
      obtain ⟨original, first, filled⟩ := ih _ same
      exact ⟨c :: original, by rw [if_neg on, first, Option.map_some], .char c filled⟩
  | tab m _ ih =>
    rw [((flat_spaces _).sealed false).upToClosing_append] at found
    obtain ⟨later, same, rfl⟩ := Option.map_eq_some_iff.mp found
    obtain ⟨original, first, filled⟩ := ih _ same
    refine ⟨'\t' :: original, ?_, .tab m filled⟩
    have still : level n '\t' = n := rfl
    rw [Text.upToClosing, if_neg fun both => absurd both.1 (by decide), still, first, Option.map_some]

theorem enclosed {inside : List Char} (filled : Filled cs ds) (found : Text.enclosed ds = some inside) :
    ∃ original, Text.enclosed cs = some original ∧ Filled original inside := by
  rw [Text.enclosed] at found
  have opened : Filled (cs.dropWhile (· != '(')).tail (ds.dropWhile (· != '(')).tail := by
    clear found
    induction filled with
    | nil => exact .nil
    | char c more ih =>
      by_cases opens : c = '('
      · rwa [List.dropWhile_cons_of_neg (by simpa using opens), List.dropWhile_cons_of_neg (by simpa using opens)]
      · rwa [List.dropWhile_cons_of_pos (by simpa using opens), List.dropWhile_cons_of_pos (by simpa using opens)]
    | tab m _ ih =>
      have spaces : ∀ c ∈ List.replicate (m + 1) ' ', (c != '(') = true := fun c member => by
        simpa using (flat_spaces _ c member).1
      rwa [List.dropWhile_append_of_pos spaces, List.dropWhile_cons_of_pos (by decide)]
  exact opened.upToClosing 0 found

theorem cutCommas (filled : Filled cs ds) (n : Nat) :
    List.Forall₂ Filled (Text.cutCommas n cs) (Text.cutCommas n ds) := by
  have head {pieces fillings : List (List Char)} (f g : List Char → List Char)
      (each : ∀ {cs ds}, Filled cs ds → Filled (f cs) (g ds)) (all : List.Forall₂ Filled pieces fillings) :
      List.Forall₂ Filled (pieces.modifyHead f) (fillings.modifyHead g) := by
    cases all with
    | nil => exact .nil
    | cons first more => exact .cons (each first) more
  induction filled generalizing n with
  | nil => exact .cons .nil .nil
  | char c _ ih =>
    rw [Text.cutCommas, Text.cutCommas]
    split
    · exact .cons .nil (ih 0)
    · exact head _ _ (.char c) (ih _)
  | tab m _ ih =>
    have still : level n '\t' = n := rfl
    rw [((flat_spaces _).sealed false).cutCommas_append n (fun anywhere => nomatch anywhere), Text.cutCommas,
      if_neg fun both => absurd both.1 (by decide), still]
    exact head _ _ (.tab m) (ih n)

theorem trimLeft (filled : Filled cs ds) : Filled (Text.trimLeft cs) (Text.trimLeft ds) := by
  induction filled with
  | nil => exact .nil
  | char c more ih =>
    rw [Text.trimLeft, Text.trimLeft]
    by_cases blank : isBlank c = true
    · rwa [List.dropWhile_cons_of_pos blank, List.dropWhile_cons_of_pos blank]
    · rw [List.dropWhile_cons_of_neg blank, List.dropWhile_cons_of_neg blank]
      exact .char c more
  | tab m _ ih =>
    have blank : ∀ c ∈ List.replicate (m + 1) ' ', isBlank c = true := by
      intro c member
      rw [(List.mem_replicate.mp member).2, isBlank_space]
    rwa [Text.trimLeft, List.dropWhile_cons_of_pos (by decide), Text.trimLeft, List.dropWhile_append_of_pos blank]

theorem takeWhile (filled : Filled cs ds) (p : Char → Bool) (tab : p '\t' = false) (space : p ' ' = false) :
    ds.takeWhile p = cs.takeWhile p := by
  induction filled with
  | nil => rfl
  | char c _ ih =>
    cases holds : p c with
    | true => rw [List.takeWhile_cons_of_pos holds, List.takeWhile_cons_of_pos holds, ih]
    | false => rw [List.takeWhile_cons_of_neg (by simp [holds]), List.takeWhile_cons_of_neg (by simp [holds])]
  | tab m _ _ =>
    rw [List.replicate_succ, List.cons_append, List.takeWhile_cons_of_neg (by simp [space]),
      List.takeWhile_cons_of_neg (by simp [tab])]

theorem firstWord (filled : Filled cs ds) : Text.firstWord ds = Text.firstWord cs :=
  filled.trimLeft.takeWhile _ (by decide) (by decide)

theorem append_left {front more : List Char} (filled : Filled (front ++ more) ds) :
    ∃ first second, ds = first ++ second ∧ Filled front first ∧ Filled more second := by
  induction front generalizing ds with
  | nil => exact ⟨[], ds, rfl, .nil, filled⟩
  | cons c front ih =>
    cases filled with
    | char _ later =>
      obtain ⟨first, second, rfl, here, rest⟩ := ih later
      exact ⟨c :: first, second, rfl, .char c here, rest⟩
    | tab n later =>
      obtain ⟨first, second, rfl, here, rest⟩ := ih later
      exact ⟨List.replicate (n + 1) ' ' ++ first, second, by simp, .tab n here, rest⟩

theorem cons_left {c : Char} {more : List Char} (visible : c ≠ '\t') (filled : Filled (c :: more) ds) :
    ∃ later, ds = c :: later ∧ Filled more later := by
  cases filled with
  | char _ later => exact ⟨_, rfl, later⟩
  | tab => exact absurd rfl visible

theorem eq_of_no_tab (filled : Filled cs ds) (none : '\t' ∉ cs) : ds = cs := by
  induction filled with
  | nil => rfl
  | char c _ ih => rw [ih fun member => none (List.mem_cons_of_mem _ member)]
  | tab => exact absurd (List.mem_cons_self ..) none

theorem head? (filled : Filled cs ds) : ds.head? = cs.head? ∨ ds.head? = some ' ' := by
  cases filled with
  | nil => exact .inl rfl
  | char => exact .inl rfl
  | tab n => exact .inr (by simp [List.replicate_succ])

end Filled
end SqlSchema.Text
