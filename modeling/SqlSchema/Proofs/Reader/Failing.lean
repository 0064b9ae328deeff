import SqlSchema.Proofs.Reader.Composed
import SqlSchema.Proofs.Reader.Matching

/-! Where rules fail. A rule reports one of the places that its parts report, or where it looks or the end of the text;
a choice reports the furthest of all. So a bound on places holds of a whole grammar if keywords respect it. -/
namespace SqlSchema.Reader.Rule
open Text

variable {α β : Type}

/-- The rule fails and reports the failure. -/
def Reports (r : Rule α) (c : Cursor) (f : Failure) : Prop := r.read c = .error f

theorem not_reports_pure (a : α) (c : Cursor) (f : Failure) : ¬ (pure a : Rule α).Reports c f := nofun

theorem reports_bind (r : Rule α) (next : α → Rule β) (c : Cursor) (f : Failure) :
    (r >>= next).Reports c f ↔ r.Reports c f ∨ ∃ a after, r.Reads c a after ∧ (next a).Reports after f := by
  unfold Reports Reads
  rw [read_bind]
  cases r.read c with
  | ok result =>
    obtain ⟨value, place⟩ := result
    simp
  | error failure => simp

theorem not_reports_optional (r : Rule α) (c : Cursor) (f : Failure) : ¬ (optional r).Reports c f := by
  intro reports
  rw [Reports, read_optional] at reports
  split at reports <;> contradiction

theorem not_reports_many (r : Rule α) (c : Cursor) (f : Failure) : ¬ (many r).Reports c f := nofun

/-! Choices. -/

theorem firstOf_eq_error (c : Cursor) (rules : List (Rule α)) (failures : List Failure) :
    firstOf c rules = .error failures ↔ List.Forall₂ (fun r f => r.Reports c f) rules failures := by
  induction rules generalizing failures with
  | nil => simp [firstOf, eq_comm]
  | cons r more ih =>
    simp only [List.forall₂_cons_left_iff, ← ih, firstOf]
    unfold Reports
    cases r.read c with
    | ok found => simp
    | error failure =>
      cases firstOf c more with
      | ok found => simp [Except.mapError]
      | error others => simp [Except.mapError, eq_comm]

theorem furthest_spec (best : Failure) (more : List Failure) :
    furthest best more ∈ best :: more ∧ ∀ f ∈ best :: more, f.position ≤ (furthest best more).position := by
  induction more generalizing best with
  | nil => exact ⟨List.mem_singleton_self best, List.forall_mem_singleton.mpr le_rfl⟩
  | cons failure more ih =>
    obtain ⟨member, bound⟩ := ih (if best.position < failure.position then failure else best)
    rw [List.forall_mem_cons] at bound ⊢
    rw [furthest]
    constructor
    · rcases List.mem_cons.mp member with same | later
      · rw [same]
        split <;> simp
      · exact List.mem_cons_of_mem _ (List.mem_cons_of_mem _ later)
    · rw [List.forall_mem_cons]
      refine ⟨le_trans ?_ bound.1, le_trans ?_ bound.1, bound.2⟩ <;> split <;> omega

/-- A choice reports where it looks or what one of its rules reports, and no rule gets further. -/
theorem reports_choice {name : Shape} {rules : List (Rule α)} {c : Cursor} {f : Failure}
    (reports : (choice name rules).Reports c f) :
    (f.position = ((choice name rules).origin c).position ∨ ∃ r ∈ rules, r.Reports c f) ∧
      ∀ r ∈ rules, ∃ g, r.Reports c g ∧ g.position ≤ f.position := by
  rw [Reports, read_choice] at reports
  split at reports
  · contradiction
  next none =>
    cases reports
    cases (firstOf_eq_error ..).mp none
    exact ⟨.inl rfl, List.forall_mem_nil _⟩
  next first more all =>
    have each := (firstOf_eq_error ..).mp all
    obtain ⟨member, bound⟩ := furthest_spec first more
    have reached (r : Rule α) (among : r ∈ rules) : ∃ g ∈ first :: more, r.Reports c g := by
      obtain ⟨i, inside, rfl⟩ := List.getElem_of_mem among
      have within : i < (first :: more).length := each.length_eq ▸ inside
      exact ⟨_, List.getElem_mem within, each.get inside within⟩
    dsimp only at reports
    split at reports
    next here =>
      cases reports
      refine ⟨.inl rfl, fun r among => ?_⟩
      obtain ⟨g, listed, found⟩ := reached r among
      exact ⟨g, found, here ▸ bound g listed⟩
    next =>
      cases reports
      constructor
      · obtain ⟨i, within, same⟩ := List.getElem_of_mem member
        have inside : i < rules.length := each.length_eq.symm ▸ within
        refine .inr ⟨rules[i], List.getElem_mem inside, ?_⟩
        rw [← same]
        exact each.get inside within
      · intro r among
        obtain ⟨g, listed, found⟩ := reached r among
        exact ⟨g, found, bound g listed⟩

/-! The smallest rules. -/

theorem reports_without {name : Shape} {r : Rule α} {c : Cursor} {f : Failure} (reports : (without name r).Reports c f) :
    f.position = c.position := by
  rw [Reports, read_without] at reports
  split at reports <;> cases reports
  rfl

theorem reports_mark {sign : Char} {c : Cursor} {f : Failure} (reports : (mark sign).Reports c f) :
    f.position = c.skipGap.position ∨ f.position = c.skipGap.size := by
  rw [Reports, read_mark] at reports
  split at reports
  · split at reports <;> cases reports
    exact .inl rfl
  · cases reports
    exact .inr rfl

theorem reports_recognised {name : Shape} {recognise : List Char → Option (α × Nat)} {c : Cursor} {f : Failure}
    (reports : (recognised name recognise).Reports c f) : f.position = c.skipGap.position := by
  rw [Reports, read_recognised] at reports
  split at reports <;> cases reports
  rfl

/-- Between the quotes, and with both of them, lies no more than there is. -/
theorem advance_of_reads_quoted {q : Quoting} {c after : Cursor} {text : String}
    (reads : (quoted q).Reads c text after) :
    ∃ size, 0 < size ∧ size ≤ c.skipGap.rest.length ∧ after = c.skipGap.advance size := by
  obtain ⟨rest, inside, behind, here, closed, _, rfl⟩ := (reads_quoted ..).mp reads
  refine ⟨_, Nat.succ_pos _, ?_, rfl⟩
  rw [here, q.close_append rest inside behind closed]
  simp only [List.length_cons, List.length_append]
  omega

theorem reports_quoted {q : Quoting} {c : Cursor} {f : Failure} (reports : (quoted q).Reports c f) :
    f.position = c.skipGap.position ∨ f.position = c.skipGap.size := by
  rw [Reports, read_quoted] at reports
  split at reports
  · split at reports
    · split at reports <;> cases reports
      exact .inl rfl
    · cases reports
      exact .inl rfl
  · cases reports
    exact .inr rfl

theorem reports_endOfText {c : Cursor} {f : Failure} (reports : endOfText.Reports c f) :
    f.position = c.skipGap.position := by
  rw [Reports, read_endOfText] at reports
  split at reports <;> cases reports
  rfl

/-- A keyword that fails reports where it looks, or that a word character follows it there or precedes it. -/
theorem reports_keyword {word : String} {c : Cursor} {f : Failure} (reports : (keyword word).Reports c f) :
    f.position = c.skipGap.position ∨
      upper (c.skipGap.rest.take word.length) = upper word.toList ∧
        (f.position = c.skipGap.position - 1 ∨
          c.skipGap.rest.drop word.length ≠ [] ∧ f.position = c.skipGap.position + word.length) := by
  rw [Reports, read_keyword] at reports
  split at reports
  next same =>
    refine .inr ⟨same, ?_⟩
    split at reports
    · cases reports
      exact .inl rfl
    · split at reports
      next touching =>
        cases reports
        refine .inr ⟨?_, rfl⟩
        intro ended
        rw [ended] at touching
        contradiction
      next => contradiction
  next =>
    cases reports
    exact .inl rfl

theorem readAll_eq_error (r : Rule α) (cs : List Char) (f : Failure) :
    r.readAll cs = .error f ↔
      r.Reports (.start cs) f ∨ ∃ a after, r.Reads (.start cs) a after ∧ endOfText.Reports after f := by
  have whole : (do
      let value ← r
      endOfText
      return value : Rule α).Reports (.start cs) f ↔
        r.Reports (.start cs) f ∨ ∃ a after, r.Reads (.start cs) a after ∧ endOfText.Reports after f := by
    simp only [reports_bind, not_reports_pure, and_false, exists_false, or_false]
  rw [← whole, Reports, readAll]
  cases Rule.read _ (Cursor.start cs) <;> simp [Except.map]

/-! Whole grammars. -/

/-- Places that the smallest rules lead to one another, and positions that they report there. -/
structure Preserved (I : Cursor → Prop) (B : Nat → Prop) : Prop where
  position : ∀ c, I c → B c.position
  size : ∀ c, I c → B c.size
  advance : ∀ c n, I c → 0 < n → n ≤ c.rest.length → I (c.advance n)
  keyword : ∀ word ∈ vocabulary, ∀ c after, I c → (keyword word).Reads c () after → I after
  failure : ∀ word ∈ vocabulary, ∀ c f, I c → (Rule.keyword word).Reports c f → B f.position

namespace Preserved

variable {I : Cursor → Prop} {B : Nat → Prop} (preserved : Preserved I B)
include preserved

theorem skipGap {c : Cursor} (here : I c) : I c.skipGap := by
  rcases Nat.eq_zero_or_pos (c.rest.takeWhile Cursor.isGap).length with none | some
  · rw [Cursor.skipGap, none, Cursor.advance_zero]
    exact here
  · exact preserved.advance c _ here some (List.takeWhile_prefix _).length_le

theorem origin (r : Rule α) {c : Cursor} (here : I c) : I (r.origin c) := by
  unfold Rule.origin
  split
  · exact preserved.skipGap here
  · exact here

end Preserved

theorem forall_repeatFrom {I : Cursor → Prop} {r : Rule α} (each : ∀ c a after, I c → r.Reads c a after → I after)
    (c : Cursor) (here : I c) : I (repeatFrom r c).2 := by
  fun_induction Rule.repeatFrom r c with
  | case1 c a after found shorter more last repeated ih =>
    rw [repeated] at ih
    exact ih (each c a after here found)
  | case2 c a after found stuck => exact each c a after here found
  | case3 c failure => exact here

/-- By induction on how the rule is made. -/
theorem Composed.preserves {I : Cursor → Prop} {B : Nat → Prop} (preserved : Preserved I B) {r : Rule α}
    (composed : r.Composed) (c : Cursor) (here : I c) :
    (∀ a after, r.Reads c a after → I after) ∧ ∀ f, r.Reports c f → B f.position := by
  induction composed generalizing c with
  | pure a =>
    refine ⟨fun b after reads => ?_, fun f reports => absurd reports (not_reports_pure a c f)⟩
    obtain ⟨_, rfl⟩ := (reads_pure ..).mp reads
    exact here
  | bind first second ihFirst ihSecond =>
    obtain ⟨onward, failing⟩ := ihFirst c here
    constructor
    · intro b last reads
      obtain ⟨a, after, head, tail⟩ := (reads_bind ..).mp reads
      exact (ihSecond a after (onward a after head)).1 b last tail
    · intro f reports
      rcases (reports_bind ..).mp reports with head | ⟨a, after, head, tail⟩
      · exact failing f head
      · exact (ihSecond a after (onward a after head)).2 f tail
  | @optional _ r inner ih =>
    refine ⟨fun found after reads => ?_, fun f reports => absurd reports (not_reports_optional r c f)⟩
    rcases (reads_optional ..).mp reads with ⟨a, _, head⟩ | ⟨_, _, rfl⟩
    · exact (ih c here).1 a after head
    · exact preserved.origin r here
  | @many _ r inner ih =>
    refine ⟨fun all after reads => ?_, fun f reports => absurd reports (not_reports_many r c f)⟩
    have same : repeatFrom r ((Rule.many r).origin c) = (all, after) := Except.ok.inj reads
    have last := forall_repeatFrom (fun c a after here => (ih c here).1 a after) _ (preserved.origin (Rule.many r) here)
    rwa [same] at last
  | @choice _ name rules each ih =>
    constructor
    · intro a after reads
      obtain ⟨r, member, head⟩ := ((reads_choice ..).mp reads).exists_mem
      exact (ih r member c here).1 a after head
    · intro f reports
      rcases (reports_choice reports).1 with same | ⟨r, member, head⟩
      · exact same ▸ preserved.position _ (preserved.origin _ here)
      · exact (ih r member c here).2 f head
  | without name inner ih =>
    constructor
    · intro u after reads
      obtain ⟨_, rfl⟩ := (reads_without ..).mp reads
      exact here
    · exact fun f reports => reports_without reports ▸ preserved.position c here
  | keyword word known =>
    exact ⟨fun u after reads => preserved.keyword word known c after here reads,
      fun f reports => preserved.failure word known c f here reports⟩
  | mark sign =>
    have next := preserved.skipGap here
    constructor
    · intro u after reads
      obtain ⟨rest, split, rfl⟩ := (reads_mark ..).mp reads
      exact preserved.advance _ 1 next Nat.one_pos (by simp [split])
    · intro f reports
      rcases reports_mark reports with same | same
      · exact same ▸ preserved.position _ next
      · exact same ▸ preserved.size _ next
  | quoted q =>
    have next := preserved.skipGap here
    constructor
    · intro text after reads
      obtain ⟨size, positive, bound, rfl⟩ := advance_of_reads_quoted reads
      exact preserved.advance _ size next positive bound
    · intro f reports
      rcases reports_quoted reports with same | same
      · exact same ▸ preserved.position _ next
      · exact same ▸ preserved.size _ next
  | recognised name bounded =>
    have next := preserved.skipGap here
    constructor
    · intro a after reads
      obtain ⟨size, found, rfl⟩ := (reads_recognised ..).mp reads
      obtain ⟨positive, bound⟩ := bounded _ a size found
      exact preserved.advance _ size next positive bound
    · exact fun f reports => reports_recognised reports ▸ preserved.position _ next
  | endOfText =>
    have next := preserved.skipGap here
    constructor
    · intro u after reads
      obtain ⟨_, rfl⟩ := (reads_endOfText ..).mp reads
      exact next
    · exact fun f reports => reports_endOfText reports ▸ preserved.position _ next

end SqlSchema.Reader.Rule
