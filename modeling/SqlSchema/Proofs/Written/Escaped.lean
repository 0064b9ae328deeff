import SqlSchema.Proofs.Written.StringTable

/-! Strings with escapes. A quote in a string is written twice or behind a backslash, a backslash is written twice. The
rules take away the backslashes first and one of two quotes afterwards, so quotes behind backslashes are lost if they
meet. -/
namespace SqlSchema.Written
open Text Reader Statement

/-- What a string is written with, between quotes of some kind. -/
inductive Item where
  | plain (c : Char)
  /-- The quote, doubled. -/
  | doubled
  /-- The quote behind a backslash. -/
  | slashed
  /-- A backslash, doubled. -/
  | slash
deriving DecidableEq

namespace Item

def chars (mark : Char) : Item → List Char
  | .plain c => [c]
  | .doubled => [mark, mark]
  | .slashed => ['\\', mark]
  | .slash => ['\\', '\\']

def meaning (mark : Char) : Item → Char
  | .plain c => c
  | .doubled | .slashed => mark
  | .slash => '\\'

/-- What is left without the backslashes. -/
def bare (mark : Char) : Item → List Char
  | .plain c => [c]
  | .doubled => [mark, mark]
  | .slashed => [mark]
  | .slash => ['\\']

/-- The character is written for itself. -/
def Plain (mark : Char) : Item → Prop
  | .plain c => c ≠ mark ∧ c ≠ '\\'
  | _ => True

instance (mark : Char) : (item : Item) → Decidable (item.Plain mark)
  | .plain c => inferInstanceAs (Decidable (c ≠ mark ∧ c ≠ '\\'))
  | .doubled | .slashed | .slash => .isTrue trivial

end Item

/-- Among quotes that follow each other directly at most one stands behind a backslash, and none if one was met. -/
def Separate : Bool → List Item → Prop
  | _, [] => True
  | _, .plain _ :: rest | _, .slash :: rest => Separate false rest
  | met, .doubled :: rest => Separate met rest
  | met, .slashed :: rest => met = false ∧ Separate true rest

instance decidableSeparate : (met : Bool) → (items : List Item) → Decidable (Separate met items)
  | _, [] => .isTrue trivial
  | _, .plain _ :: rest | _, .slash :: rest => decidableSeparate false rest
  | met, .doubled :: rest => decidableSeparate met rest
  | _, .slashed :: rest =>
    have : Decidable (Separate true rest) := decidableSeparate true rest
    inferInstanceAs (Decidable (_ ∧ _))

/-- Behind a doubled backslash something is written that does not begin with a quote. -/
def Shielded : List Item → Prop
  | [] => True
  | item :: rest => (item = .slash → rest.head?.any (· != .doubled) = true) ∧ Shielded rest

instance decidableShielded : (items : List Item) → Decidable (Shielded items)
  | [] => .isTrue trivial
  | _ :: rest =>
    have : Decidable (Shielded rest) := decidableShielded rest
    inferInstanceAs (Decidable (_ ∧ _))

structure EscapedString where
  mark : Char
  items : List Item
  quote : mark = '\x27' ∨ mark = '\x22'
  plain : ∀ item ∈ items, item.Plain mark

section Items
variable {mark : Char} {items : List Item}

theorem close_items {q : Quoting} (escape : q.escape = .any) (anyLine : q.oneLine = false) (usual : q.mark ≠ '\\')
    (plain : ∀ item ∈ items, item.Plain q.mark) :
    q.close (items.flatMap (Item.chars q.mark) ++ [q.mark]) = some (items.flatMap (Item.chars q.mark), []) := by
  induction items with
  | nil => exact Quoting.close_mark (by simp)
  | cons item items ih =>
    obtain ⟨here, later⟩ := List.forall_mem_cons.mp plain
    have closed := ih later
    have slash (c : Char) : q.close ('\\' :: c :: (items.flatMap (Item.chars q.mark) ++ [q.mark])) =
        some ('\\' :: c :: items.flatMap (Item.chars q.mark), []) := by
      rw [Quoting.close]
      simp [usual.symm, anyLine, escape, closed]
    rw [List.flatMap_cons]
    cases item with
    | plain c =>
      show q.close (c :: (items.flatMap (Item.chars q.mark) ++ [q.mark])) = _
      rw [Quoting.close_char anyLine here.1 here.2, closed]
      rfl
    | doubled =>
      show q.close (q.mark :: q.mark :: (items.flatMap (Item.chars q.mark) ++ [q.mark])) = _
      rw [Quoting.close]
      simp [closed, Item.chars]
    | slashed => exact slash q.mark
    | slash => exact slash '\\'

theorem Shielded.steady (shielded : Shielded items) (usual : mark ≠ '\\' ∧ mark ≠ '\n')
    (plain : ∀ item ∈ items, item.Plain mark) (rest : List Char) :
    Text.Steady mark rest (items.flatMap (Item.chars mark)) := by
  induction items with
  | nil => exact .nil
  | cons item items ih =>
    obtain ⟨here, later⟩ := List.forall_mem_cons.mp plain
    have steady := ih shielded.2 later
    rw [List.flatMap_cons]
    cases item with
    | plain c => exact .char here.1 here.2 steady
    | doubled => exact .twice steady
    | slashed => exact .escaped usual.2 (fun same => absurd same usual.1) steady
    | slash =>
      refine .escaped (by decide) (fun _ => .inl ?_) steady
      obtain ⟨next, head, other⟩ := Option.any_eq_true _ _ |>.mp (shielded.1 rfl)
      obtain ⟨more, rfl⟩ := List.head?_eq_some_iff.mp head
      have begun := later next (List.mem_cons_self ..)
      cases next with
      | plain c => exact ⟨c, _, rfl, begun.1⟩
      | doubled => contradiction
      | slashed | slash => exact ⟨'\\', _, rfl, usual.1.symm⟩

/-! Decoding. -/

theorem unescape_of_ne {c : Char} (escapes : Bool) (plain : c ≠ '\\') (rest : List Char) :
    unescape escapes (c :: rest) = c :: unescape escapes rest := by
  rw [unescape]
  intro _ _ same
  exact absurd same plain

/-- A backslash in front of a quote or of another backslash is taken away. -/
theorem unescape_slash {c : Char} (known : c ∈ ['\x27', '\x22', '\\']) (rest : List Char) :
    unescape true ('\\' :: c :: rest) = c :: unescape true rest := by
  have control : ∀ c ∈ ['\x27', '\x22', '\\'], controlOf? c = none := by decide
  have numeric : numericEscape? (c :: rest) = none := by
    simp only [List.mem_cons, List.not_mem_nil, or_false] at known
    rcases known with rfl | rfl | rfl <;> cases rest <;> simp [numericEscape?]
  rw [unescape, control c known]
  dsimp only
  split
  next found => cases numeric.symm.trans found
  next => rfl

theorem unescape_items (quote : mark = '\x27' ∨ mark = '\x22') (plain : ∀ item ∈ items, item.Plain mark) :
    unescape true (items.flatMap (Item.chars mark)) = items.flatMap (Item.bare mark) := by
  have usual : mark ≠ '\\' := by rcases quote with rfl | rfl <;> decide
  have known : mark ∈ ['\x27', '\x22', '\\'] := by rcases quote with rfl | rfl <;> decide
  induction items with
  | nil => simp [unescape]
  | cons item items ih =>
    obtain ⟨here, later⟩ := List.forall_mem_cons.mp plain
    have more := ih later
    rw [List.flatMap_cons, List.flatMap_cons, ← more]
    cases item with
    | plain c => exact unescape_of_ne true here.2 _
    | doubled => exact (unescape_of_ne true usual _).trans (congrArg _ (unescape_of_ne true usual _))
    | slashed => exact unescape_slash known _
    | slash => exact unescape_slash (by decide) _

/-- A quote that was met and is not yet paired. -/
def pending (mark : Char) (met : Bool) : List Char := if met then [mark] else []

theorem undouble_of_ne {c : Char} (other : c ≠ mark) (met : Bool) (rest : List Char) :
    undouble mark (pending mark met ++ c :: rest) = pending mark met ++ c :: undouble mark rest := by
  have alone : undouble mark (c :: rest) = c :: undouble mark rest := by
    cases rest with
    | nil => rfl
    | cons d rest => rw [undouble, if_neg fun both => other both.1]
  cases met with
  | false => exact alone
  | true =>
    show undouble mark (mark :: c :: rest) = mark :: c :: undouble mark rest
    rw [undouble, if_neg fun both => other both.2, alone]

theorem undouble_pair (rest : List Char) : undouble mark (mark :: mark :: rest) = mark :: undouble mark rest := by
  rw [undouble, if_pos ⟨rfl, rfl⟩]

theorem undouble_twice (met : Bool) (rest : List Char) :
    undouble mark (pending mark met ++ mark :: mark :: rest) = mark :: undouble mark (pending mark met ++ rest) := by
  cases met <;> exact undouble_pair _

/-- Decoded strings are no longer than what they are written with. -/
theorem length_undouble_items (plain : ∀ item ∈ items, item.Plain mark) (usual : mark ≠ '\\') (met : Bool) :
    (undouble mark (pending mark met ++ items.flatMap (Item.bare mark))).length ≤
      (pending mark met).length + items.length := by
  induction items generalizing met with
  | nil => cases met <;> simp [pending, undouble]
  | cons item items ih =>
    obtain ⟨here, later⟩ := List.forall_mem_cons.mp plain
    have shorter := ih later
    have other {c : Char} (apart : c ≠ mark) :
        (undouble mark (pending mark met ++ c :: items.flatMap (Item.bare mark))).length ≤
          (pending mark met).length + (items.length + 1) := by
      have more := shorter false
      rw [undouble_of_ne apart, List.length_append, List.length_cons]
      simp only [pending, Bool.false_eq_true, if_false, List.nil_append, List.length_nil] at more ⊢
      omega
    rw [List.flatMap_cons, List.length_cons]
    cases item with
    | plain c => exact other here.1
    | slash => exact other usual.symm
    | doubled =>
      have more := shorter met
      have split : pending mark met ++ (Item.doubled.bare mark ++ items.flatMap (Item.bare mark)) =
        pending mark met ++ mark :: mark :: items.flatMap (Item.bare mark) := rfl
      rw [split, undouble_twice, List.length_cons]
      omega
    | slashed =>
      cases met with
      | false =>
        have more := shorter true
        simp only [pending] at more ⊢
        simpa [Item.bare, Nat.add_comm] using more
      | true =>
        have more := shorter false
        have split : pending mark true ++ (Item.slashed.bare mark ++ items.flatMap (Item.bare mark)) =
          mark :: mark :: items.flatMap (Item.bare mark) := rfl
        rw [split, undouble_pair, List.length_cons]
        simp only [pending, Bool.false_eq_true, if_false, List.nil_append, List.length_nil, if_true,
          List.length_singleton] at more ⊢
        omega

theorem undouble_items (plain : ∀ item ∈ items, item.Plain mark) (usual : mark ≠ '\\') (met : Bool) :
    undouble mark (pending mark met ++ items.flatMap (Item.bare mark)) =
        pending mark met ++ items.map (Item.meaning mark) ↔ Separate met items := by
  induction items generalizing met with
  | nil => cases met <;> simp [pending, undouble, Separate]
  | cons item items ih =>
    obtain ⟨here, later⟩ := List.forall_mem_cons.mp plain
    have same := ih later
    have other {c : Char} (apart : c ≠ mark) :
        undouble mark (pending mark met ++ c :: items.flatMap (Item.bare mark)) =
            pending mark met ++ c :: items.map (Item.meaning mark) ↔ Separate false items := by
      rw [undouble_of_ne apart, List.append_cancel_left_eq, List.cons.injEq, ← same false]
      simp [pending]
    rw [List.flatMap_cons, List.map_cons]
    cases item with
    | plain c => exact other here.1
    | slash => exact other usual.symm
    | doubled =>
      have split : pending mark met ++ (Item.doubled.bare mark ++ items.flatMap (Item.bare mark)) =
        pending mark met ++ mark :: mark :: items.flatMap (Item.bare mark) := rfl
      have first : pending mark met ++ Item.doubled.meaning mark :: items.map (Item.meaning mark) =
          mark :: (pending mark met ++ items.map (Item.meaning mark)) := by
        cases met <;> rfl
      rw [split, undouble_twice, first, List.cons.injEq, same met]
      exact ⟨And.right, fun rest => ⟨rfl, rest⟩⟩
    | slashed =>
      cases met with
      | false => exact (same true).trans ⟨fun rest => ⟨rfl, rest⟩, And.right⟩
      | true =>
        refine iff_of_false (fun decoded => ?_) fun separate => absurd separate.1 (by decide)
        have long : mark :: undouble mark (items.flatMap (Item.bare mark)) =
          mark :: mark :: items.map (Item.meaning mark) := (undouble_pair _).symm.trans decoded
        have short : (undouble mark (items.flatMap (Item.bare mark))).length ≤ 0 + items.length :=
          length_undouble_items later usual false
        have size := congrArg List.length long
        simp only [List.length_cons, List.length_map] at size
        omega

end Items

/-! Tables of strings with escapes. -/

namespace EscapedString

def chars (s : EscapedString) : List Char := s.mark :: (s.items.flatMap (Item.chars s.mark) ++ [s.mark])

/-- What is meant by the items, one after the other. -/
def meaning (s : EscapedString) : String := String.ofList (s.items.map (Item.meaning s.mark))

theorem usual (s : EscapedString) : s.mark ≠ '\\' ∧ s.mark ≠ '\n' ∧ s.mark ≠ '\t' ∧ s.mark ≠ '\x60' := by
  rcases s.quote with same | same <;> rw [same] <;> decide

def literal (s : EscapedString) : Literal .mysql where
  quote :=
    { quoting := ⟨s.mark, .any, false⟩
      known := by rcases s.quote with same | same <;> simp [quotings, same]
      body := s.items.flatMap (Item.chars s.mark)
      closed := close_items rfl rfl s.usual.1 s.plain }
  string := s.usual.2.2.2

theorem text_eq_iff (s : EscapedString) : s.literal.text = s.meaning ↔ Separate false s.items := by
  have text : s.literal.text =
    String.ofList (undouble s.mark (unescape true (s.items.flatMap (Item.chars s.mark)))) := rfl
  rw [text, meaning, String.ofList_inj, unescape_items s.quote s.plain]
  exact undouble_items s.plain s.usual.1 false

theorem steady (s : EscapedString) (shielded : Shielded s.items) (rest : List Char) : s.literal.quote.Steady rest := by
  have other : s.literal.quote.mark ≠ '\x60' := s.usual.2.2.2
  rw [Quote.Steady, if_neg other]
  exact shielded.steady ⟨s.usual.1, s.usual.2.1⟩ s.plain rest

theorem tab_not_mem_chars (s : EscapedString) (untabbed : .plain '\t' ∉ s.items) : '\t' ∉ s.chars := by
  intro tab
  rw [chars, List.mem_cons, List.mem_append, List.mem_singleton, List.mem_flatMap] at tab
  rcases tab with same | ⟨item, member, inside⟩ | same
  · exact s.usual.2.2.1 same.symm
  · cases item with
    | plain c => exact untabbed (List.mem_singleton.mp inside ▸ member)
    | _ => simp [Item.chars, s.usual.2.2.1.symm] at inside
  · exact s.usual.2.2.1 same.symm

end EscapedString

/-- Where nothing misleads those that look for comments, strings are read as what is meant by their items exactly if no
two quotes behind backslashes meet. -/
theorem gives_escapedTable_iff {columns : List (StringColumn EscapedString)} (filled : columns ≠ [])
    (few : columns.length < nestingLimit)
    (untabbed : ∀ c ∈ columns, ∀ s ∈ c.content.strings, .plain '\t' ∉ s.items)
    (plain : (∀ c ∈ columns, ∀ s ∈ c.content.strings, Shielded s.items) ∨
      Bland (stringTable EscapedString.chars columns)) :
    (Definition.read .mysql (String.ofList (stringTable EscapedString.chars columns))).Gives
        (.createTable (String.ofList (stringTable EscapedString.chars columns))
          (decodedTable EscapedString.meaning columns)) ↔
      ∀ c ∈ columns, ∀ s ∈ c.content.strings, Separate false s.items := by
  have misled : Plain EscapedString.literal columns :=
    plain.imp_left fun shielded c column s string => s.steady (shielded c column s string)
  have whole := gives_stringTable_iff EscapedString.literal EscapedString.meaning filled few misled
    fun c column s string => s.tab_not_mem_chars (untabbed c column s string)
  simp only [EscapedString.text_eq_iff] at whole
  exact whole

/-- A default value between single quotes and members between quotes of both kinds. -/
def EscapedString.mixed : List (StringColumn EscapedString) :=
  [⟨'a', .default ⟨'\x27', [.doubled, .slashed, .plain '-', .plain '-', .slash, .plain '\x22', .slashed], .inl rfl,
      by decide⟩, isLower_a⟩,
    ⟨'b', .members ⟨'\x22', [.slashed, .doubled, .plain '#', .plain '\n', .slash, .slashed], .inr rfl, by decide⟩
      [⟨'\x27', [], .inl rfl, by decide⟩], isLower_b⟩]

theorem gives_escapedTable_mixed :
    (∀ c ∈ EscapedString.mixed, ∀ s ∈ c.content.strings, Shielded s.items) ∧
      (Definition.read .mysql (String.ofList (stringTable EscapedString.chars EscapedString.mixed))).Gives
        (.createTable (String.ofList (stringTable EscapedString.chars EscapedString.mixed))
          (decodedTable EscapedString.meaning EscapedString.mixed)) := by
  have shielded : ∀ c ∈ EscapedString.mixed, ∀ s ∈ c.content.strings, Shielded s.items := by decide
  have apart : ∀ c ∈ EscapedString.mixed, ∀ s ∈ c.content.strings, Separate false s.items := by decide
  exact ⟨shielded, (gives_escapedTable_iff (by decide) (by decide) (by decide) (.inl shielded)).mpr apart⟩

namespace EscapedString

def colliding : EscapedString := ⟨'\x27', [.slashed, .slashed], .inl rfl, by decide⟩

def misleading : EscapedString := ⟨'\x27', [.slash, .doubled, .plain '-', .plain '-', .plain 'x'], .inl rfl, by decide⟩

/-- The string as the default value of the only column. -/
def column (s : EscapedString) : List (StringColumn EscapedString) := [⟨'a', .default s, by decide⟩]

end EscapedString

/-- Of two quotes behind backslashes one is lost, and two backslashes hide a quote behind them from those that look for
comments. -/
theorem not_gives_escapedTable :
    (Definition.read .mysql (String.ofList (stringTable EscapedString.chars EscapedString.colliding.column))).Gives
        (.createTable (String.ofList (stringTable EscapedString.chars EscapedString.colliding.column))
          { name := "t", columns := [{ name := "a", typeName := "text", default := some (.string "'") }] }) ∧
      EscapedString.colliding.meaning = "\x27\x27" ∧
      ¬ (Definition.read .mysql (String.ofList (stringTable EscapedString.chars EscapedString.misleading.column))).Gives
        (.createTable (String.ofList (stringTable EscapedString.chars EscapedString.misleading.column))
          (decodedTable EscapedString.meaning EscapedString.misleading.column)) := by
  refine ⟨?_, by decide +kernel, by decide +kernel⟩
  have shielded : ∀ c ∈ EscapedString.colliding.column, ∀ s ∈ c.content.strings, Shielded s.items := by decide
  have untabbed : ∀ c ∈ EscapedString.colliding.column, ∀ s ∈ c.content.strings, .plain '\t' ∉ s.items := by decide
  have filled : EscapedString.colliding.column ≠ [] := List.cons_ne_nil _ _
  have read := gives_stringTable EscapedString.literal filled (by decide)
    (.inl fun c column s string => s.steady (shielded c column s string))
    fun c column s string => s.tab_not_mem_chars (untabbed c column s string)
  have decoded : decodedTable (fun s => s.literal.text) EscapedString.colliding.column =
      { name := "t", columns := [{ name := "a", typeName := "text", default := some (.string "'") }] } := by
    decide +kernel
  rw [decoded] at read
  exact read

end SqlSchema.Written
