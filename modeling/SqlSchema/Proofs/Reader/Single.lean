import SqlSchema.Proofs.Reader.Matching
import SqlSchema.Proofs.Reader.Shaped
import SqlSchema.Proofs.Statement.Hashes
import SqlSchema.Proofs.Text.Quoted

/-! Single statements. The rules for indexes read a semicolon nowhere but between the marks of a name: each rule keeps
it so that there is no other in the text, seen from the place where it ends back to the place where it began. Where the
marks stand is told by the text alone, so nothing can be read behind a semicolon. -/
namespace SqlSchema
open Text

section Quotes
variable {q : Quoting} {cs inside after more : List Char}

/-- Two marks in a row are one, unless nothing closes what follows them. -/
theorem Text.Quoting.close_again (plain : q.escape = .nothing) (closed : q.close cs = some (inside, q.mark :: after)) :
    q.close after = none := by
  fun_induction Quoting.close q cs generalizing inside after with
  | case5 =>
    cases closed
    assumption
  | case13 _ _ _ _ _ _ _ _ ih =>
    obtain ⟨⟨later, _⟩, found, same⟩ := Option.map_eq_some_iff.mp closed
    cases same
    exact ih found
  | _ => simp_all

end Quotes

namespace Reader

/-- Semicolons stand nowhere but between marks. -/
inductive Single (q : Quoting) : List Char → Prop
  | nil : Single q []
  | char {c rest} (unmarked : c ≠ q.mark) (joined : c ≠ ';') (more : Single q rest) : Single q (c :: rest)
  | name {rest inside after} (closed : q.close rest = some (inside, after)) (more : Single q after) :
    Single q (q.mark :: rest)

section Single
variable {q : Quoting} {cs front rest more : List Char}

theorem Single.tail {c : Char} (single : Single q (c :: rest)) (unmarked : c ≠ q.mark) :
    c ≠ ';' ∧ Single q rest := by
  cases single with
  | char _ joined more => exact ⟨joined, more⟩
  | name => exact absurd rfl unmarked

theorem Single.behind (single : Single q (front ++ more)) (unmarked : ∀ c ∈ front, c ≠ q.mark) : Single q more := by
  induction front with
  | nil => exact single
  | cons c front ih =>
    obtain ⟨here, later⟩ := List.forall_mem_cons.mp unmarked
    exact ih (single.tail here).2 later

theorem Single.in_front (single : Single q more) (free : ∀ c ∈ front, c ≠ q.mark ∧ c ≠ ';') :
    Single q (front ++ more) := by
  induction front with
  | nil => exact single
  | cons c front ih =>
    obtain ⟨here, later⟩ := List.forall_mem_cons.mp free
    exact .char here.1 here.2 (ih later)

/-- Marks in front of a text are told apart without what follows, so the text itself is left. -/
theorem Single.left (plain : q.escape = .nothing) (first : Single q cs) (whole : Single q (cs ++ more))
    (apart : more.head? ≠ some q.mark) : Single q more := by
  induction first with
  | nil => exact whole
  | char unmarked _ _ ih => exact ih (whole.tail unmarked).2
  | @name rest inside after closed first ih =>
    have other : (after ++ more).head? ≠ some q.mark := by
      cases first with
      | nil => exact apart
      | char unmarked _ _ => simpa using unmarked
      | name again _ =>
        rw [Quoting.close_again plain closed] at again
        cases again
    have longer := Quoting.close_longer (by simp [plain]) closed other
    rw [List.cons_append] at whole
    generalize split : rest ++ more = text at whole
    cases whole with
    | char unmarked => exact absurd rfl unmarked
    | name found later =>
      rw [← split, longer] at found
      cases found
      exact ih later

theorem Single.not_mem (single : Single q cs) (unmarked : q.mark ∉ cs) : ';' ∉ cs := by
  induction single with
  | nil => exact List.not_mem_nil
  | char _ joined _ ih =>
    rw [List.mem_cons, not_or] at unmarked ⊢
    exact ⟨Ne.symm joined, ih unmarked.2⟩
  | name => exact absurd (List.mem_cons_self ..) unmarked

end Single

/-- The second place lies behind the first, and no semicolon stands between them. -/
structure Onto (q : Quoting) (c after : Cursor) : Prop where
  exact : c.Exact → after.Exact
  single : Single q after.rest → Single q c.rest

namespace Onto
variable {q : Quoting} {c after last : Cursor}

theorem refl (c : Cursor) : Onto q c c := ⟨id, id⟩

theorem trans (first : Onto q c after) (second : Onto q after last) : Onto q c last :=
  ⟨second.exact ∘ first.exact, first.single ∘ second.single⟩

theorem advance (c : Cursor) (n : Nat) (free : ∀ d ∈ c.rest.take n, d ≠ q.mark ∧ d ≠ ';') : Onto q c (c.advance n) where
  exact exact := exact.advance n
  single single := by
    rw [← List.take_append_drop n c.rest]
    exact single.in_front free

theorem skipGap (free : Cursor.isGap q.mark = false) (c : Cursor) : Onto q c c.skipGap := by
  refine advance c _ fun d member => ?_
  rw [← List.prefix_iff_eq_take.mp (List.takeWhile_prefix _)] at member
  have gap : Cursor.isGap d = true := List.mem_takeWhile_imp member
  constructor
  · rintro rfl
    exact absurd (gap.symm.trans free) Bool.noConfusion
  · rintro rfl
    exact absurd gap (by decide)

end Onto

namespace Rule
variable {α β : Type} {q : Quoting}

/-- Whatever the rule reads, no semicolon is passed over outside marks. -/
def Keeps (q : Quoting) (r : Rule α) : Prop := ∀ c a after, r.Reads c a after → Onto q c after

theorem keeps_pure (a : α) : (pure a : Rule α).Keeps q := by
  intro c b after found
  obtain ⟨_, rfl⟩ := (reads_pure ..).mp found
  exact .refl c

theorem Keeps.bind {r : Rule α} {next : α → Rule β} (first : r.Keeps q) (second : ∀ a, (next a).Keeps q) :
    (r >>= next).Keeps q := by
  intro c b last found
  obtain ⟨a, after, head, tail⟩ := (reads_bind ..).mp found
  exact (first c a after head).trans (second a after b last tail)

theorem keeps_choice (name : Shape) (rules : List (Rule α)) (each : ∀ r ∈ rules, r.Keeps q) :
    (choice name rules).Keeps q := by
  intro c a after found
  obtain ⟨r, member, reads⟩ := ((reads_choice ..).mp found).exists_mem
  exact each r member c a after reads

theorem keeps_without (name : Shape) (r : Rule α) : (without name r).Keeps q := by
  intro c u after found
  obtain ⟨_, rfl⟩ := (reads_without ..).mp found
  exact .refl c

theorem Keeps.repeats {r : Rule α} (keeps : r.Keeps q) (c : Cursor) : Onto q c (repeatFrom r c).2 := by
  fun_induction repeatFrom r c with
  | case1 c first after found shorter more last repeated ih =>
    rw [repeated] at ih
    exact (keeps c first after found).trans ih
  | case2 c first after found => exact keeps c first after found
  | case3 c => exact .refl c

section Gaps
variable (free : Cursor.isGap q.mark = false)
include free

theorem onto_origin (r : Rule α) (c : Cursor) : Onto q c (r.origin c) := by
  unfold origin
  split
  · exact .skipGap free c
  · exact .refl c

theorem Keeps.optional {r : Rule α} (keeps : r.Keeps q) : (optional r).Keeps q := by
  intro c found after reads
  rcases (reads_optional ..).mp reads with ⟨a, _, here⟩ | ⟨_, _, rfl⟩
  · exact keeps c a after here
  · exact onto_origin free r c

theorem Keeps.many {r : Rule α} (keeps : r.Keeps q) : (many r).Keeps q := by
  intro c all after found
  have same : repeatFrom r ((Rule.many r).origin c) = (all, after) := Except.ok.inj found
  have later := keeps.repeats ((Rule.many r).origin c)
  rw [same] at later
  exact (onto_origin free _ c).trans later

theorem Keeps.listOf {comma : Rule Unit} {r : Rule α} (parting : comma.Keeps q) (keeps : r.Keeps q) :
    (Rule.listOf comma r).Keeps q :=
  keeps.bind fun _ => ((parting.bind fun _ => keeps).many free).bind fun _ => keeps_pure _

theorem keeps_recognised (name : Shape) (recognise : List Char → Option (α × Nat))
    (known : ∀ cs a size, recognise cs = some (a, size) → ∀ d ∈ cs.take size, d ≠ q.mark ∧ d ≠ ';') :
    (recognised name recognise).Keeps q := by
  intro c a after found
  obtain ⟨size, here, rfl⟩ := (reads_recognised ..).mp found
  exact (Onto.skipGap free c).trans (.advance _ size (known _ a size here))

end Gaps

/-! The rules for indexes. -/

def nameQuoting (d : Dialect) : Quoting := ⟨nameMark d, .nothing, true⟩

variable (d : Dialect)

theorem nameMark_free : Cursor.isGap (nameQuoting d).mark = false := by cases d <;> decide

theorem keeps_keyword {word : String} (capital : Capital word) : (keyword word).Keeps (nameQuoting d) := by
  intro c u after found
  obtain ⟨same, _, _, rfl⟩ := (reads_keyword ..).mp found
  refine (Onto.skipGap (nameMark_free d) c).trans (.advance _ _ fun x member => ?_)
  have own (mark : Char) (single : capitals mark = [mark]) (other : mark.isUpper = false) : x ≠ mark := by
    rintro rfl
    have inside : x ∈ upper word.toList := same ▸ List.mem_flatMap.mpr ⟨x, member, by simp [single]⟩
    rw [upper_of_isUpper word.toList capital.isUpper] at inside
    exact absurd ((capital.isUpper x inside).symm.trans other) Bool.noConfusion
  refine ⟨?_, own ';' (by decide) (by decide)⟩
  cases d
  · exact own '\x60' (by decide) (by decide)
  · exact own '\x22' (by decide) (by decide)

theorem keeps_keywords (words : List String) (capital : ∀ word ∈ words, Capital word) :
    (keywords words).Keeps (nameQuoting d) := by
  induction words with
  | nil => exact keeps_pure ()
  | cons word more ih =>
    obtain ⟨here, later⟩ := List.forall_mem_cons.mp capital
    cases more with
    | nil => exact keeps_keyword d here
    | cons next others => exact (keeps_keyword d here).bind fun _ => ih later

theorem keeps_mark (sign : Char) (other : sign ≠ (nameQuoting d).mark ∧ sign ≠ ';') :
    (mark sign).Keeps (nameQuoting d) := by
  intro c u after found
  obtain ⟨rest, here, rfl⟩ := (reads_mark ..).mp found
  refine (Onto.skipGap (nameMark_free d) c).trans (.advance _ 1 fun x member => ?_)
  rw [here] at member
  cases List.mem_singleton.mp member
  exact other

theorem keeps_wordOf (name : Shape) (part : Char → Bool) (parts : ∀ c, part c = true → isNamePart c = true) :
    (recognised name (wordOf part)).Keeps (nameQuoting d) := by
  refine keeps_recognised (nameMark_free d) _ _ fun cs word size found x member => ?_
  have named : isNamePart x = true := by
    unfold wordOf at found
    split at found
    next first rest =>
      split at found
      next start =>
        cases found
        have front : first :: rest.takeWhile part <+: first :: rest :=
          (List.prefix_cons_inj first).mpr (List.takeWhile_prefix part)
        rw [← List.prefix_iff_eq_take.mp front] at member
        rcases List.mem_cons.mp member with rfl | inside
        · simp [isNamePart, isPlainWord_of_isWordStart x start]
        · exact parts x (List.mem_takeWhile_imp inside)
      next => cases found
    next => cases found
  constructor
  · rintro rfl
    cases d <;> exact absurd named (by decide)
  · rintro rfl
    exact absurd named (by decide)

theorem keeps_word : word.Keeps (nameQuoting d) := keeps_wordOf d _ _ fun c plain => by simp [isNamePart, plain]

theorem keeps_quoted : (quoted (nameQuoting d)).Keeps (nameQuoting d) := by
  intro c text after found
  refine (Onto.skipGap (nameMark_free d) c).trans ?_
  obtain ⟨rest, inside, behind, here, closed, _, rfl⟩ := (reads_quoted ..).mp found
  refine ⟨fun exact => exact.advance _, fun single => ?_⟩
  have left : (c.skipGap.advance (inside.length + 2)).rest = behind := by
    rw [Cursor.advance, here, Quoting.close_append _ _ _ _ closed]
    simp
  rw [left] at single
  rw [here]
  exact .name closed single

theorem keeps_identifier : (identifier d).Keeps (nameQuoting d) := by
  apply keeps_choice
  simp only [List.forall_mem_cons]
  exact ⟨keeps_quoted d, keeps_wordOf d _ _ fun _ => id, List.forall_mem_nil _⟩

theorem keeps_table : (table d).Keeps (nameQuoting d) := by
  have point := keeps_mark d '.' (by cases d <;> decide)
  have qualifier := (keeps_identifier d).bind fun name => point.bind fun _ => keeps_pure name
  exact Keeps.bind ((qualifier.optional (nameMark_free d)).bind fun _ => (keeps_identifier d).bind fun _ => keeps_pure _)
    fun _ => keeps_pure _

theorem keeps_usingMethod : usingMethod.Keeps (nameQuoting d) :=
  (keeps_keyword d (by decide)).bind fun _ => (keeps_word d).bind fun _ => keeps_pure _

theorem keeps_indexName : (indexName d).Keeps (nameQuoting d) :=
  (keeps_without _ _).bind fun _ => keeps_identifier d

theorem keeps_constant (a : α) (words : List String) (capital : ∀ word ∈ words, Capital word) :
    (constant a words).Keeps (nameQuoting d) := (keeps_keywords d words capital).bind fun _ => keeps_pure a

theorem keeps_keyWord : keyWord.Keeps (nameQuoting d) := by
  apply keeps_choice
  simp only [List.forall_mem_cons]
  exact ⟨keeps_constant d _ _ (by decide), keeps_constant d _ _ (by decide), List.forall_mem_nil _⟩

theorem keeps_direction : direction.Keeps (nameQuoting d) := by
  refine Keeps.optional (nameMark_free d) (keeps_choice _ _ ?_)
  simp only [List.forall_mem_cons]
  exact ⟨keeps_keyword d (by decide), keeps_keyword d (by decide), List.forall_mem_nil _⟩

theorem keeps_columnNames : (columnNames d).Keeps (nameQuoting d) := by
  have name : (do let name ← identifier d; let _ ← direction; return name : Rule String).Keeps (nameQuoting d) :=
    (keeps_identifier d).bind fun _ => (keeps_direction d).bind fun _ => keeps_pure _
  have sign (mark : Char) (known : mark ∈ ['(', ',', ')']) : (Rule.mark mark).Keeps (nameQuoting d) := by
    refine keeps_mark d mark ?_
    cases d <;> revert known <;> revert mark <;> decide
  have list := Keeps.listOf (nameMark_free d) (sign ',' (by decide)) name
  exact (sign '(' (by decide)).bind fun _ => list.bind fun _ => (sign ')' (by decide)).bind fun _ => keeps_pure _

theorem keeps_endOfText : endOfText.Keeps (nameQuoting d) := by
  intro c u after found
  obtain ⟨_, rfl⟩ := (reads_endOfText ..).mp found
  exact .skipGap (nameMark_free d) c

end Rule
end Reader
end SqlSchema
