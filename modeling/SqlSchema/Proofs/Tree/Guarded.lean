import SqlSchema.Proofs.Definition.Interruption
import SqlSchema.Proofs.Statement.Kind
import SqlSchema.Proofs.Statement.Visible

/-! First words and first statements. Wherever the first of something is taken without a look whether there is one, there
is one: what is cut off around a text, what parts its statements and what the tokens call white space is the same. So
nothing but nesting stops the reading of a text. -/
namespace SqlSchema
open Text Token Attempt

/-! Tokens. -/

/-- A token that begins with white space is white space. -/
theorem Token.isSpace_of_scanFrom (before : Option Char) (cs : List Char) :
    ∀ t ∈ scanFrom before cs, ∀ c, t.text.head? = some c → isBlank c = true → t.isSpace = true := by
  fun_induction scanFrom before cs with
  | case1 => exact List.forall_mem_nil _
  | case2 before c rest kind after found size text ih =>
    refine List.forall_mem_cons.mpr ⟨?_, ih⟩
    intro first head blank
    obtain rfl : c = first := Option.some.inj head
    rw [Statement.leading_of_blank before blank] at found
    unfold space at found
    split at found
    · cases found
      rfl
    next same =>
      obtain ⟨rfl, rfl⟩ := List.cons.inj same
      rw [if_pos blank] at found
      split at found <;> cases found <;> rfl
    · contradiction

theorem Token.firstWord_ne_nil {cs : List Char} {t : Token} (member : t ∈ scan cs) (solid : t.isSpace = false) :
    firstWord t.text ≠ [] := by
  refine Text.firstWord_ne_nil (text_ne_nil member) fun c head => ?_
  by_contra blank
  have space := isSpace_of_scanFrom none cs t member c head (by simpa using blank)
  rw [solid] at space
  contradiction

/-! Statements. -/

theorem Statement.split_ne_nil {cs : List Char} (filled : cs ≠ [])
    (visible : ∀ c, cs.head? = some c → isBlank c = false) : split (scan cs) ≠ [] := by
  intro missing
  obtain ⟨blanks, space, whole⟩ := flatten_splitFrom {} [] (scan cs)
  change (split (scan cs)).flatten ++ blanks = scan cs at whole
  rw [missing, List.flatten_nil, List.nil_append] at whole
  obtain ⟨c, rest, rfl⟩ := List.exists_cons_of_ne_nil filled
  have member : c ∈ textOf (scan (c :: rest)) := by
    rw [textOf_scan]
    exact List.mem_cons_self ..
  obtain ⟨t, among, inside⟩ := List.mem_flatMap.mp member
  have blank := (taken_of_scanFrom none _ t among).blank (space t (whole ▸ among)) c inside
  rw [visible c rfl] at blank
  contradiction

theorem Statement.classify_ne_missing {cs : List Char} (parted : split (scan cs) ≠ []) : classify cs ≠ .ok .missing := by
  obtain ⟨tokens, more, first⟩ := List.exists_cons_of_ne_nil parted
  have told : kindOf tokens ≠ .missing := by
    unfold kindOf
    dsimp only
    repeat' split
    all_goals exact Kind.noConfusion
  unfold classify
  rw [first]
  dsimp only
  split
  · simp
  · simpa using told

namespace Tree

/-- Every first of something that is taken while the text is read. -/
structure Guarded (cs : List Char) : Prop where
  word : cs ≠ [] → firstWord cs ≠ []
  statement : cs ≠ [] → Statement.split (scan cs) ≠ [] ∧ Statement.classify cs ≠ .ok .missing
  token : ∀ tokens ∈ (Statement.split (scan cs)).head?, ∀ front t rest, Statement.Led tokens front t rest →
    firstWord t.text ≠ []

theorem guarded_of_visible {cs : List Char} (visible : ∀ c, cs.head? = some c → isBlank c = false) : Guarded cs := by
  constructor
  · intro filled
    exact Text.firstWord_ne_nil filled visible
  · intro filled
    have parted := Statement.split_ne_nil filled visible
    exact ⟨parted, Statement.classify_ne_missing parted⟩
  · intro tokens first front t rest led
    have piece := Statement.infix_of_mem_split (List.mem_of_head? first)
    have member : t ∈ scan cs := piece.subset (led.split ▸ List.mem_append_right front (List.mem_cons_self ..))
    refine Token.firstWord_ne_nil member ?_
    have code := led.code
    simp only [Statement.isIdle, Bool.or_eq_false_iff] at code
    exact code.1.1

theorem head?_strip {d : Dialect} {text plain : List Char} (stripped : Statement.strip d text = .ok plain) (c : Char)
    (first : (dropSemicolon plain).head? = some c) : isBlank c = false := by
  obtain ⟨cut, whole⟩ := prefix_dropSemicolon plain
  obtain ⟨kept, _, rfl⟩ := (map_eq_ok ..).mp stripped
  have head : (trim (if d = .mysql then Statement.cutHashes kept else kept)).head? = some c := by
    rw [← whole, List.head?_append, first]
    rfl
  exact isBlank_of_head?_trim _ c head

/-- The rest of a text that is taken over begins with something that can be seen. -/
theorem firstWord_of_reads_rest {c after : Reader.Cursor} {body : String} (reads : Reader.Rule.rest.Reads c body after) :
    firstWord body.toList ≠ [] := by
  obtain ⟨size, found, _⟩ := (Reader.Rule.reads_recognised ..).mp reads
  split at found
  next first more split =>
    split at found
    · contradiction
    next visible =>
      cases found
      rw [String.toList_ofList, split]
      refine Text.firstWord_ne_nil (List.cons_ne_nil _ _) fun c head => ?_
      obtain rfl : first = c := Option.some.inj head
      simpa using visible
  · contradiction

/-- Any text has a tree, or is rejected, or is nested too deep. No first word, statement or token is missing on the
way, nor the first word of an alteration. -/
theorem read_guarded (d : Dialect) (text : String) :
    ((∃ tree, (read d text).Gives tree) ∨ (∃ e, (read d text).Rejects e) ∨
        (read d text).Stops .nestingTooDeep ∧ (Statement.TooDeep text.toList ∨
          ∃ plain, Statement.strip d text.toList = .ok plain ∧ Statement.TooDeep (dropSemicolon plain))) ∧
      (∀ plain, Statement.strip d text.toList = .ok plain → Guarded (dropSemicolon plain)) ∧
      ∀ c body after, Reader.Rule.rest.Reads c body after → firstWord body.toList ≠ [] := by
  refine ⟨?_, fun plain stripped => guarded_of_visible (head?_strip stripped), fun _ _ _ => firstWord_of_reads_rest⟩
  rcases gives_or_breaks (read d text) with given | ⟨b, broken⟩
  · exact .inl given
  · cases b with
    | rejected e => exact .inr (.inl ⟨e, broken⟩)
    | interrupted i =>
      obtain ⟨rfl, deep⟩ := (Definition.stops_tree_iff d text i).mp broken
      refine .inr (.inr ⟨broken, deep.imp_right ?_⟩)
      rintro ⟨plain, stripped, _, deep⟩
      exact ⟨plain, stripped, deep⟩

end Tree
end SqlSchema
