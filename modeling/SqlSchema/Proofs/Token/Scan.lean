import SqlSchema.Token.Lexer

/-! Scanning step by step: the first token is what the rules take, and the text goes on behind it. -/
namespace SqlSchema.Token

theorem scanFrom_append {before : Option Char} {kind : Kind} {taken after : List Char} (filled : taken ≠ [])
    (found : leading before (taken ++ after) = some (kind, after)) :
    scanFrom before (taken ++ after) = ⟨kind, taken⟩ :: scanFrom taken.getLast? after := by
  obtain ⟨c, more, rfl⟩ := List.exists_cons_of_ne_nil filled
  rw [List.cons_append] at found ⊢
  have size : (more ++ after).length - after.length = more.length := by simp
  rw [scanFrom, found]
  dsimp only [Option.getD_some]
  rw [size, List.take_left, List.drop_left]

/-- A character that no rule takes makes a token of its own. -/
theorem scanFrom_stray {before : Option Char} {c : Char} {rest : List Char}
    (missed : leading before (c :: rest) = none) :
    scanFrom before (c :: rest) = ⟨.stray, [c]⟩ :: scanFrom (some c) rest := by
  rw [scanFrom, missed]
  simp

theorem text_ne_nil {before : Option Char} {cs : List Char} {t : Token} (member : t ∈ scanFrom before cs) :
    t.text ≠ [] := by
  fun_induction scanFrom before cs with
  | case1 => exact absurd member List.not_mem_nil
  | case2 before c rest kind after found size text ih =>
    rcases List.mem_cons.mp member with rfl | later
    · exact List.cons_ne_nil _ _
    · exact ih later

theorem head?_of_scanFrom {before : Option Char} {cs : List Char} {t : Token}
    (first : (scanFrom before cs).head? = some t) : cs.head? = t.text.head? := by
  obtain ⟨more, split⟩ := List.head?_eq_some_iff.mp first
  have filled : t.text ≠ [] := text_ne_nil (split ▸ List.mem_cons_self ..)
  have whole := textOf_scanFrom before cs
  rw [split, textOf, List.flatMap_cons] at whole
  obtain ⟨c, others, letters⟩ := List.exists_cons_of_ne_nil filled
  rw [← whole, letters, List.cons_append, List.head?_cons, List.head?_cons]

theorem textOf_append (front more : List Token) :
    textOf (front ++ more) = textOf front ++ textOf more := List.flatMap_append

theorem textOf_flatten (pieces : List (List Token)) : textOf pieces.flatten = pieces.flatMap textOf := by
  induction pieces with
  | nil => rfl
  | cons piece more ih => rw [List.flatten_cons, textOf_append, ih, List.flatMap_cons]

theorem textOf_infix {piece tokens : List Token} (inside : piece <:+: tokens) : textOf piece <:+: textOf tokens := by
  obtain ⟨front, back, rfl⟩ := inside
  exact ⟨textOf front, textOf back, by rw [textOf_append, textOf_append]⟩

theorem getLast?_textOf {tokens : List Token} {t : Token} (last : tokens.getLast? = some t) (filled : t.text ≠ []) :
    (textOf tokens).getLast? = t.text.getLast? := by
  obtain ⟨front, rfl⟩ := List.getLast?_eq_some_iff.mp last
  have single : textOf [t] = t.text := List.flatMap_singleton ..
  rw [textOf_append, single, List.getLast?_append, List.getLast?_eq_some_getLast filled, Option.some_or]

end SqlSchema.Token
