import SqlSchema.Proofs.Statement.Interleaved
import SqlSchema.Proofs.Statement.Split

/-! Texts that stripping leaves as they are. They make one statement without comments and without white space at the
ends of its lines, either because nothing in them could be taken for a comment or because that stands in quoted texts
only. -/
namespace SqlSchema.Statement
open Text Token

/-! One statement. -/

theorem splitFrom_of_unending {s : Depth} {tokens : List Token} (current : List Token) (begun : s.ended = false)
    (unending : ∀ t ∈ tokens, ends t = false) :
    splitFrom s current tokens =
      if (tokens.reverse ++ current).all (·.isSpace) then [] else [current.reverse ++ tokens] := by
  induction tokens generalizing s current with
  | nil => rw [splitFrom, List.reverse_nil, List.nil_append, List.append_nil]
  | cons t rest ih =>
    obtain ⟨here, later⟩ := List.forall_mem_cons.mp unending
    have still : (s.next t).ended = false := by
      by_contra ended
      rcases ended_next s t (Bool.not_eq_false _ ▸ ended) with before | now
      · rw [begun] at before
        contradiction
      · rw [here] at now
        contradiction
    rw [splitFrom, begun, Bool.false_and, if_neg Bool.false_ne_true, ih (t :: current) still later]
    simp

/-- As many parentheses as are opened at all may be nested. -/
theorem shallow_of_countP {top n : Nat} {tokens : List Token} (few : n + tokens.countP (·.isMark '(') ≤ top) :
    Shallow top n tokens := by
  induction tokens generalizing n with
  | nil => trivial
  | cons t rest ih =>
    rw [List.countP_cons] at few
    rw [Shallow]
    split_ifs with opening closing
    · rw [if_pos opening] at few
      exact ⟨by omega, ih (by omega)⟩
    · exact ih (by omega)
    · exact ih (by omega)

/-- No token is a comment or ends the statement, and few of them open parentheses. -/
structure Single (tokens : List Token) : Prop where
  code : ∀ t ∈ tokens, t.isComment = false
  unending : ∀ t ∈ tokens, ends t = false
  visible : ∃ t ∈ tokens, t.isSpace = false
  few : tokens.countP (·.isMark '(') ≤ nestingLimit

theorem Single.plainText {cs : List Char} (single : Single (scan cs)) : plainText cs = .ok (tidyLines cs) := by
  have one : split (scan cs) = [scan cs] := by
    obtain ⟨t, member, seen⟩ := single.visible
    rw [split, splitFrom_of_unending [] rfl single.unending, List.append_nil, if_neg]
    · rfl
    · rw [List.all_eq_true]
      intro space
      rw [space t (List.mem_reverse.mpr member)] at seen
      contradiction
  have flat : ¬ nestingLimit < nesting (scan cs) :=
    Nat.not_lt.mpr (shallow_of_countP (by rw [Nat.zero_add]; exact single.few)).nesting_le
  have whole : plain (scan cs) = tidyLines cs := by
    rw [plain, uncomment_of_no_comment _ single.code]
    exact congrArg tidyLines (textOf_scan cs)
  rw [Statement.plainText, one, List.any_cons, List.any_nil, decide_eq_false flat, List.flatMap_singleton, whole]
  rfl

theorem Single.strip {d : Dialect} {cs : List Char} (single : Single (scan cs)) (lines : tidyLines cs = cs)
    (hashes : d = .mysql → cutHashes cs = cs) (framed : Framed cs) : strip d cs = .ok cs := by
  rw [Statement.strip, single.plainText, lines]
  cases d with
  | mysql => exact congrArg Except.ok ((congrArg Text.trim (hashes rfl)).trans framed.trim)
  | postgres => exact congrArg Except.ok framed.trim

/-! Texts in which nothing could be taken for a comment. -/

theorem mem_of_ends {t : Token} (ending : ends t = true) : ';' ∈ t.text ∨ ['G', 'O'] <:+: t.text := by
  rw [ends, Bool.or_eq_true] at ending
  rcases ending with mark | go
  · rw [isMark, Bool.and_eq_true, beq_iff_eq, beq_iff_eq] at mark
    exact .inl (mark.2 ▸ List.mem_singleton_self _)
  · rw [Bool.and_eq_true, beq_iff_eq, beq_iff_eq] at go
    rw [← go.2]
    exact .inr ((List.takeWhile_prefix _).isInfix.trans (List.dropWhile_suffix _).isInfix)

theorem textOf_singleton_infix {t : Token} {tokens : List Token} (member : t ∈ tokens) : t.text <:+: textOf tokens := by
  obtain ⟨front, back, rfl⟩ := List.append_of_mem member
  exact ⟨textOf front, textOf back, by simp [textOf]⟩

theorem countP_isMark_le (c : Char) (tokens : List Token) : tokens.countP (·.isMark c) ≤ (textOf tokens).count c := by
  induction tokens with
  | nil => exact Nat.zero_le _
  | cons t rest ih =>
    have whole : textOf (t :: rest) = t.text ++ textOf rest := List.flatMap_cons ..
    rw [List.countP_cons, whole, List.count_append]
    split
    next mark =>
      rw [isMark, Bool.and_eq_true, beq_iff_eq, beq_iff_eq] at mark
      rw [mark.2, List.count_singleton_self]
      omega
    next => omega

/-- One line without semicolons in which no comment opens, whether something is quoted in it or not. -/
structure Bland (cs : List Char) : Prop where
  plain : ∀ c ∈ cs, isLineEnd c = false ∧ c ≠ '#' ∧ c ≠ ';'
  closed : Closed cs
  going : ¬ ['G', 'O'] <:+: cs
  few : cs.count '(' ≤ nestingLimit

instance (cs : List Char) : Decidable (Bland cs) :=
  decidable_of_iff ((∀ c ∈ cs, isLineEnd c = false ∧ c ≠ '#' ∧ c ≠ ';') ∧ Closed cs ∧ ¬ ['G', 'O'] <:+: cs ∧
      cs.count '(' ≤ nestingLimit)
    ⟨fun ⟨plain, closed, going, few⟩ => ⟨plain, closed, going, few⟩,
      fun bland => ⟨bland.plain, bland.closed, bland.going, bland.few⟩⟩

/-- The first character of a token tells whether it is white space. -/
theorem isComment_of_scanFrom (before : Option Char) {cs : List Char} (closed : Closed cs) :
    ∀ t ∈ scanFrom before cs, t.isComment = false ∧ (t.isSpace = true → t.text.head?.any isBlank = true) := by
  have code (kind : Token.Kind) (text : List Char) (known : isCode kind = true) :
      isComment ⟨kind, text⟩ = false ∧ isSpace ⟨kind, text⟩ = false := by
    cases kind <;> first | exact ⟨rfl, rfl⟩ | contradiction
  fun_induction scanFrom before cs with
  | case1 => exact List.forall_mem_nil _
  | case2 before c rest kind after found size text ih =>
    refine List.forall_mem_cons.mpr ⟨?_, ih fun opener known inside => ?_⟩
    · have quiet : opensComment (c :: rest) = false := by
        rw [← List.append_nil (c :: rest)]
        exact closed.quiet fun d _ => opensComment_single d
      cases known : leading before (c :: rest) with
      | none =>
        rw [known] at found
        cases found
        exact ⟨rfl, fun space => absurd space Bool.false_ne_true⟩
      | some token =>
        rw [known, Option.getD_some] at found
        subst found
        rcases isCode_of_leading quiet known with solid | ⟨blank, white⟩
        · obtain ⟨plain, seen⟩ := code kind text solid
          exact ⟨plain, fun space => absurd space (by simp [seen])⟩
        · exact ⟨by rcases white with rfl | rfl <;> rfl, fun _ => blank⟩
    · have tail : rest.drop size <:+ c :: rest := (List.drop_suffix ..).trans (List.suffix_cons ..)
      exact closed opener known (inside.trans tail.isInfix)

theorem cutHashes_of_free {cs : List Char} (free : '#' ∉ cs) : cutHashes cs = cs := by
  fun_induction cutHashes cs with
  | case1 => rfl
  | case2 c rest _ inside after closed ih =>
    have split := Quoting.close_append _ _ _ _ closed
    rw [ih fun member => free (by simp [split, member]), split]
    simp [hashQuoting]
  | case3 c rest _ _ ih | case5 c rest _ _ ih => rw [ih fun member => free (List.mem_cons_of_mem _ member)]
  | case4 => exact absurd (List.mem_cons_self ..) free

theorem Bland.unending {cs : List Char} (bland : Bland cs) : ∀ t ∈ scan cs, ends t = false := by
  intro t member
  have inside : t.text <:+: cs := textOf_scan cs ▸ textOf_singleton_infix member
  by_contra ending
  rcases mem_of_ends (Bool.not_eq_false _ ▸ ending) with mark | go
  · exact (bland.plain ';' (inside.subset mark)).2.2 rfl
  · exact bland.going (go.trans inside)

theorem Bland.strip {cs : List Char} (bland : Bland cs) (framed : Framed cs) (d : Dialect) : strip d cs = .ok cs := by
  have free : '#' ∉ cs := fun member => (bland.plain '#' member).2.1 rfl
  have lines : tidyLines cs = cs := by
    rw [tidyLines_of_one_line cs fun c member => (bland.plain c member).1, trimRight_eq_self cs framed.last]
  refine Single.strip ⟨fun t member => (isComment_of_scanFrom none bland.closed t member).1, bland.unending, ?_, ?_⟩
    lines (fun _ => cutHashes_of_free free) framed
  · cases first : (scan cs).head? with
    | none =>
      have whole := textOf_scan cs
      rw [List.head?_eq_none_iff.mp first] at whole
      exact absurd whole.symm framed.filled
    | some t =>
      have member := List.mem_of_head? first
      refine ⟨t, member, ?_⟩
      by_contra space
      have blank := (isComment_of_scanFrom none bland.closed t member).2 (Bool.not_eq_false _ ▸ space)
      rw [← head?_of_scanFrom first, Option.any_eq_true] at blank
      obtain ⟨c, head, white⟩ := blank
      rw [framed.first c head] at white
      contradiction
  · exact (countP_isMark_le '(' (scan cs)).trans (by rw [textOf_scan]; exact bland.few)

/-! Texts in which only quoted texts could be taken for something else. -/

/-- Code that neither ends a line or a statement nor begins a batch separator. -/
def InLine (c : Char) : Prop := IsCode c ∧ isLineEnd c = false ∧ c ≠ ';' ∧ c ≠ 'G'

instance (c : Char) : Decidable (InLine c) := inferInstanceAs (Decidable (_ ∧ _))

def Sight.opens {d : Dialect} : Sight d → Bool
  | .char c => c == '('
  | .quote _ => false

section Told
variable {d : Dialect} {cs : List Char} {tokens : List Token} {o : List (Sight d)}

theorem InLine.unquoted (c : Char) (inside : InLine c) : isHashQuote c = false := isHashQuote_of_plain inside.1.1

theorem Told.unending (told : Told d InLine tokens o) : ∀ t ∈ tokens, ends t = false := by
  induction told with
  | nil => exact List.forall_mem_nil _
  | @code t _ _ _ code _ ih =>
    refine List.forall_mem_cons.mpr ⟨?_, ih⟩
    by_contra ending
    rcases mem_of_ends (Bool.not_eq_false _ ▸ ending) with mark | go
    · exact (code ';' mark).2.2.1 rfl
    · exact (code 'G' (go.subset (List.mem_cons_self ..))).2.2.2 rfl
  | @quote t _ _ _ _ kind _ _ _ ih =>
    have open_ : ∀ kind ∈ [Token.Kind.name, .string, .symbol], ends ⟨kind, t.text⟩ = false := by
      simp [ends, Token.isMark]
    exact List.forall_mem_cons.mpr ⟨open_ t.kind kind, ih⟩

theorem Told.countP_le {P : Char → Prop} (told : Told d P tokens o) :
    tokens.countP (·.isMark '(') ≤ o.countP Sight.opens := by
  induction told with
  | nil => exact Nat.zero_le _
  | @code t _ _ _ _ _ ih =>
    rw [List.countP_cons, List.countP_append]
    split
    next mark =>
      rw [isMark, Bool.and_eq_true, beq_iff_eq, beq_iff_eq] at mark
      have one : (sights d t.text).countP Sight.opens = 1 := by
        rw [mark.2]
        cases d <;> decide
      omega
    next => omega
  | @quote t _ _ _ _ kind _ _ _ ih =>
    have closed : ∀ kind ∈ [Token.Kind.name, .string, .symbol], Token.isMark ⟨kind, t.text⟩ '(' = false := by
      simp [Token.isMark]
    have other : t.isMark '(' = false := closed t.kind kind
    rw [List.countP_cons, List.countP_cons, other]
    simp only [Bool.false_eq_true, if_false]
    omega

theorem Outlined.linesFrom_eq (outlined : Outlined d InLine cs o) (current : List Char) :
    linesFrom current cs = [current.reverse ++ cs] := by
  induction outlined generalizing current with
  | nil => rw [linesFrom, List.append_nil]
  | @char c rest _ inside _ ih =>
    have other : c ≠ '\x27' ∧ c ≠ '\x22' := by
      constructor
      all_goals
        rintro rfl
        exact absurd inside (by decide)
    rw [linesFrom_char current rest inside.2.1 other, ih]
    simp
  | quote q steady ended _ ih =>
    rw [linesFrom_quote steady current ended, ih]
    simp

theorem Legible.untouched (legible : Legible d InLine cs o) (few : o.countP Sight.opens ≤ nestingLimit)
    (framed : Framed cs) : Statement.strip d cs = .ok cs := by
  have told : Told d InLine (scan cs) o := legible.told (fun c inside => inside.1.1) none
  have outlined := told.outlined InLine.unquoted
  rw [textOf_scan] at outlined
  have lines : tidyLines cs = cs := by
    rw [tidyLines, outlined.linesFrom_eq [], List.map_singleton, List.intercalate_singleton]
    exact trimRight_eq_self cs framed.last
  refine Single.strip ⟨told.not_comment, told.unending, ?_, told.countP_le.trans few⟩ lines ?_ framed
  · by_contra none
    have space : ∀ t ∈ scan cs, t.isSpace = true := by simpa using none
    obtain ⟨c, rest, rfl⟩ := List.exists_cons_of_ne_nil framed.filled
    rw [told.nil_of_space space] at outlined
    have nothing : Outlined d InLine (c :: rest) (([] : List Char).map .char) := outlined
    have unseen := nothing.visible
    rw [visible, List.filter_eq_nil_iff] at unseen
    exact absurd (framed.first c rfl) (by simpa using unseen c (List.mem_cons_self ..))
  · rintro rfl
    exact outlined.cutHashes_eq_self fun c inside => ⟨InLine.unquoted c inside, inside.1.2⟩

theorem countP_sights_le (code : List Char) : (sights d code).countP Sight.opens ≤ code.count '(' := by
  rw [sights, List.countP_map]
  exact (List.filter_sublist ..).countP_le ..

end Told
end SqlSchema.Statement
