import SqlSchema.Proofs.Definition.Untouched
import SqlSchema.Proofs.Written.StringTable

/-! Texts that are written between single quotes, their single quotes doubled. The rules undo what is doubled, but they
read a backslash together with some of the characters behind it in every dialect. So a text comes back exactly if no
backslash stands in front of one of these. -/
namespace SqlSchema.Written
open Text Reader Statement

/-! What a backslash is read together with. -/

/-- No backslash stands in front of something that it is read together with. -/
def Unescaped : List Char → Prop
  | [] => True
  | c :: rest => (c = '\\' → rest.head?.bind controlOf? = none ∧ numericEscape? rest = none) ∧ Unescaped rest

instance decidableUnescaped : (cs : List Char) → Decidable (Unescaped cs)
  | [] => .isTrue trivial
  | _ :: rest =>
    have : Decidable (Unescaped rest) := decidableUnescaped rest
    inferInstanceAs (Decidable (_ ∧ _))

/-- What a numeric escape takes stands for itself, or has a character in it that is no quote. -/
theorem numericEscape?_taken {cs meaning after : List Char} (found : numericEscape? cs = some (meaning, after)) :
    ∃ taken, cs = taken ++ after ∧
      (meaning = taken ∨ meaning.length = 1 ∧ ∃ c ∈ taken, c = '0' ∨ c = 'x' ∨ c = 'u') := by
  unfold numericEscape? at found
  split at found
  · split_ifs at found with three zero
    · cases found
      exact ⟨_, rfl, .inl rfl⟩
    · cases found
      exact ⟨['0'], by simp [zero], .inr ⟨rfl, '0', by simp⟩⟩
    · split at found
      next d n after digit =>
        cases found
        exact ⟨['x', _, '2'], rfl, .inr ⟨rfl, 'x', by simp⟩⟩
      next d n after digit =>
        cases found
        exact ⟨['u', _, '4'], rfl, .inr ⟨rfl, 'u', by simp⟩⟩
      next => contradiction
  · cases found
    exact ⟨['0'], rfl, .inr ⟨rfl, '0', by simp⟩⟩
  · contradiction

theorem numericEscape?_countP {cs meaning after : List Char} (found : numericEscape? cs = some (meaning, after)) :
    meaning.countP (· != '\x27') + after.countP (· != '\x27') ≤ cs.countP (· != '\x27') := by
  obtain ⟨taken, rfl, shape⟩ := numericEscape?_taken found
  rw [List.countP_append]
  refine Nat.add_le_add_right ?_ _
  rcases shape with rfl | ⟨single, c, member, known⟩
  · exact Nat.le_refl _
  · have other : (c != '\x27') = true := by rcases known with rfl | rfl | rfl <;> decide
    exact (List.countP_le_length.trans_eq single).trans (List.countP_pos_iff.mpr ⟨c, member, other⟩)

theorem numericEscape?_double (cs : List Char) :
    numericEscape? (double '\x27' cs) = none ↔ numericEscape? cs = none := by
  have quote (rest : List Char) : numericEscape? ('\x27' :: rest) = none := by cases rest <;> simp [numericEscape?]
  have second (c : Char) (rest other : List Char) :
      numericEscape? (c :: '\x27' :: rest) = none ↔ numericEscape? (c :: '\x27' :: other) = none := by
    have digit : hexDigit? '\x27' = none := by decide
    simp [numericEscape?, digit]
  have third (c d e : Char) (rest other : List Char) :
      numericEscape? (c :: d :: e :: rest) = none ↔ numericEscape? (c :: d :: e :: other) = none := by
    constructor
    all_goals
      intro missed
      unfold numericEscape? at missed ⊢
      grind
  cases cs with
  | nil => rfl
  | cons c rest =>
    by_cases first : c = '\x27'
    · rw [first, double_mark]
      simp only [quote]
    rw [double_of_ne first]
    cases rest with
    | nil => rfl
    | cons d rest =>
      by_cases next : d = '\x27'
      · rw [next, double_mark]
        exact second ..
      rw [double_of_ne next]
      cases rest with
      | nil => rfl
      | cons e rest =>
        by_cases last : e = '\x27'
        · rw [last, double_mark]
          exact third ..
        · rw [double_of_ne last]
          exact third ..

theorem unescaped_double (cs : List Char) : Unescaped (double '\x27' cs) ↔ Unescaped cs := by
  induction cs with
  | nil => rfl
  | cons c rest ih =>
    by_cases same : c = '\x27'
    · rw [same, double_mark]
      simp [Unescaped, ih]
    · rw [double_of_ne same, Unescaped, Unescaped, head?_double, numericEscape?_double, ih]

theorem unescape_of_unescaped {cs : List Char} (plain : Unescaped cs) : unescape false cs = cs := by
  fun_induction unescape false cs with
  | case1 c rest control found ih =>
    have missed := (plain.1 rfl).1
    rw [List.head?_cons, Option.bind_some, found] at missed
    contradiction
  | case2 c rest _ meaning after found ih =>
    rw [(plain.1 rfl).2] at found
    contradiction
  | case3 _ _ _ _ escapes => exact nomatch escapes
  | case4 c rest _ _ _ ih => rw [ih plain.2]
  | case5 c rest _ ih => rw [ih plain.2]
  | case6 => rfl

/-- What stands between quotes gets shorter by its escapes. -/
theorem unescaped_or_countP_lt (cs : List Char) :
    Unescaped cs ∨ (unescape false cs).countP (· != '\x27') < cs.countP (· != '\x27') := by
  have bound (c : Char) : [c].countP (· != '\x27') ≤ 1 := List.countP_le_length
  have least {cs : List Char}
      (either : Unescaped cs ∨ (unescape false cs).countP (· != '\x27') < cs.countP (· != '\x27')) :
      (unescape false cs).countP (· != '\x27') ≤ cs.countP (· != '\x27') :=
    either.elim (fun plain => (congrArg _ (unescape_of_unescaped plain)).le) Nat.le_of_lt
  have slash (rest : List Char) : ('\\' :: rest).countP (· != '\x27') = rest.countP (· != '\x27') + 1 :=
    List.countP_cons_of_pos (by decide)
  fun_induction unescape false cs with
  | case1 c rest control found ih =>
    have other : (c != '\x27') = true := by
      by_contra same
      rw [bne_iff_ne, not_not] at same
      rw [same] at found
      exact nomatch found
    have long : (c :: rest).countP (· != '\x27') = rest.countP (· != '\x27') + 1 := List.countP_cons_of_pos other
    have few := least ih
    have one := bound control
    have split : (control :: unescape false rest).countP (· != '\x27') =
        [control].countP (· != '\x27') + (unescape false rest).countP (· != '\x27') := by
      rw [← List.countP_append, List.singleton_append]
    rw [slash, long, split]
    omega
  | case2 c rest _ meaning after found ih =>
    have taken := numericEscape?_countP found
    have few := least ih
    rw [slash, List.countP_append]
    omega
  | case3 _ _ _ _ escapes => exact nomatch escapes
  | case4 c rest control numeric _ ih =>
    rw [slash, slash]
    rcases ih with plain | fewer
    · exact .inl ⟨fun _ => ⟨control, numeric⟩, plain⟩
    · exact .inr (by omega)
  | case5 c rest apart ih =>
    rw [List.countP_cons, List.countP_cons]
    rcases ih with plain | fewer
    · refine .inl ⟨?_, plain⟩
      rintro rfl
      cases rest with
      | nil => exact ⟨rfl, rfl⟩
      | cons d rest => exact (apart d rest rfl rfl).elim
    · exact .inr (by omega)
  | case6 => exact .inl trivial

/-! Texts between single quotes. -/

/-- Every backslash stands directly in front of a character other than the quote and a line feed. -/
def Guarded (mark : Char) : List Char → Prop
  | [] => True
  | c :: rest => (c = '\\' → rest.head?.any (fun d => d != mark && d != '\n') = true) ∧ Guarded mark rest

instance decidableGuarded (mark : Char) : (cs : List Char) → Decidable (Guarded mark cs)
  | [] => .isTrue trivial
  | _ :: rest =>
    have : Decidable (Guarded mark rest) := decidableGuarded mark rest
    inferInstanceAs (Decidable (_ ∧ _))

theorem Guarded.next {mark : Char} {rest : List Char} (guarded : Guarded mark ('\\' :: rest)) :
    ∃ d more, rest = d :: more ∧ d ≠ mark ∧ d ≠ '\n' := by
  have allowed := guarded.1 rfl
  cases rest with
  | nil => exact nomatch allowed
  | cons d more => exact ⟨d, more, rfl, by simpa using allowed⟩

theorem Guarded.steady {mark : Char} {cs : List Char} (guarded : Guarded mark cs)
    (rest : List Char) : Text.Steady mark rest (double mark cs) := by
  induction size : cs.length using Nat.strongRecOn generalizing cs with
  | ind n ih =>
    cases cs with
    | nil => exact .nil
    | cons c cs =>
      rw [List.length_cons] at size
      by_cases same : c = mark
      · rw [same, double_mark]
        exact .twice (ih cs.length (by omega) guarded.2 rfl)
      rw [double_of_ne same]
      by_cases slash : c = '\\'
      · subst slash
        obtain ⟨d, more, rfl, other, inside⟩ := guarded.next
        rw [List.length_cons] at size
        rw [double_of_ne other]
        refine .escaped inside (fun slash => .inl ?_) (ih more.length (by omega) guarded.2.2 rfl)
        subst slash
        obtain ⟨e, final, rfl, apart, _⟩ := guarded.2.next
        exact ⟨e, _, double_of_ne apart final, apart⟩
      · exact .char same slash (ih cs.length (by omega) guarded.2 rfl)

def verbatim (x : String) : Literal .postgres where
  quote :=
    { quoting := ⟨'\x27', .nothing, false⟩
      known := List.mem_cons_self ..
      body := double '\x27' x.toList
      closed := Quoting.close_double _ _ _ (fun _ _ => ⟨fun _ => rfl, fun _ => rfl⟩) (by simp) }
  string := (by decide : '\x27' ≠ '\x22')

theorem verbatim_text_iff (x : String) : (verbatim x).text = x ↔ Unescaped x.toList := by
  have text : (verbatim x).text = String.ofList (undouble '\x27' (unescape false (double '\x27' x.toList))) := rfl
  rw [text, ← String.toList_inj, String.toList_ofList, ← unescaped_double]
  constructor
  · intro same
    refine (unescaped_or_countP_lt _).resolve_right (Nat.not_lt.mpr (Nat.le_of_eq ?_))
    have few := countP_undouble '\x27' (unescape false (double '\x27' x.toList))
    rw [← few, same, countP_double]
  · intro plain
    rw [unescape_of_unescaped plain, undouble_double]

def inQuotes (x : String) : String := "'" ++ String.ofList (double '\x27' x.toList) ++ "'"

theorem toList_inQuotes (x : String) : (inQuotes x).toList = (verbatim x).chars := by
  have mark : "'" = String.ofList ['\x27'] := rfl
  rw [inQuotes, mark, String.toList_append, String.toList_append, String.toList_ofList, String.toList_ofList]
  rfl

/-- The statement that creates a table with a default value and with members between single quotes. -/
def verbatimTable (value member : String) (members : List String) : String :=
  "CREATE TABLE t (a text DEFAULT " ++ inQuotes value ++ ", b enum(" ++
    ", ".intercalate ((member :: members).map inQuotes) ++ "))"

def verbatimColumns (value member : String) (members : List String) : List (StringColumn String) :=
  [⟨'a', .default value, isLower_a⟩, ⟨'b', .members member members, isLower_b⟩]

theorem toList_verbatimTable (value member : String) (members : List String) :
    (verbatimTable value member members).toList =
      stringTable (fun x => (verbatim x).chars) (verbatimColumns value member members) := by
  have words : "CREATE TABLE t (a text DEFAULT " = String.ofList ("CREATE".toList ++ (spaced ["TABLE"] ++
      [' ', 't', ' ', '(']) ++ ('a' :: ' ' :: ("text".toList ++ ' ' :: ("DEFAULT".toList ++ [' '])))) := by
    decide +kernel
  have between : ", b enum(" = String.ofList ([',', ' '] ++ 'b' :: ' ' :: ("enum".toList ++ ['('])) := by
    decide +kernel
  have closing : "))" = String.ofList [')', ')'] := rfl
  have comma : ", " = String.ofList [',', ' '] := rfl
  have listed : (", ".intercalate ((member :: members).map inQuotes)).toList =
      joined 1 ((member :: members).map fun x => (verbatim x).chars) := by
    rw [comma, String.toList_intercalate, String.toList_ofList, List.map_map]
    exact congrArg (List.intercalate [',', ' ']) (List.map_congr_left fun x _ => toList_inQuotes x)
  unfold verbatimTable
  rw [String.toList_append, String.toList_append, String.toList_append, String.toList_append, listed,
    toList_inQuotes, words, between, closing, String.toList_ofList, String.toList_ofList, String.toList_ofList]
  rw [stringTable_split]
  simp [verbatimColumns, StringColumn.chars, Content.chars, joined_cons]

def verbatimDecoded (value member : String) (members : List String) : SqlSchema.Table :=
  { name := "t"
    columns :=
      [{ name := "a", typeName := "text", default := some (.string value) },
        { name := "b", typeName := "enum", members := member :: members }] }

section Table
variable {value member : String} {members : List String}

theorem forall_verbatimColumns {P : String → Prop} :
    (∀ c ∈ verbatimColumns value member members, ∀ x ∈ c.content.strings, P x) ↔
      ∀ x ∈ value :: member :: members, P x := by
  simp [verbatimColumns, Content.strings]

theorem decodedTable_verbatim (meaning : String → String) :
    decodedTable meaning (verbatimColumns value member members) =
      verbatimDecoded (meaning value) (meaning member) (members.map meaning) := by
  have names : String.singleton 'a' = "a" ∧ String.singleton 'b' = "b" := by decide +kernel
  simp [decodedTable, verbatimColumns, verbatimDecoded, StringColumn.decoded, names]

/-- The texts are read as what is meant exactly if each of them stands for it between quotes. -/
theorem gives_verbatim_iff (meaning : String → String)
    (untabbed : ∀ x ∈ value :: member :: members, '\t' ∉ x.toList)
    (plain : (∀ x ∈ value :: member :: members, Guarded '\x27' x.toList) ∨
      Bland (verbatimTable value member members).toList) :
    (Definition.read .postgres (verbatimTable value member members)).Gives
        (.createTable (verbatimTable value member members)
          (verbatimDecoded (meaning value) (meaning member) (members.map meaning))) ↔
      ∀ x ∈ value :: member :: members, (verbatim x).text = meaning x := by
  have chars := toList_verbatimTable value member members
  have misled : Plain verbatim (verbatimColumns value member members) :=
    plain.imp (fun guarded => forall_verbatimColumns.mpr fun x among rest => (guarded x among).steady rest)
      fun bland => chars ▸ bland
  have free : ∀ c ∈ verbatimColumns value member members, ∀ x ∈ c.content.strings, '\t' ∉ (verbatim x).chars := by
    refine forall_verbatimColumns.mpr fun x among tab => untabbed x among ?_
    rw [← mem_double '\x27']
    simpa [Literal.chars, Quote.chars, Quote.mark, verbatim] using tab
  have whole := gives_stringTable_iff verbatim meaning (by simp [verbatimColumns])
    (by simp [verbatimColumns, nestingLimit]) misled free
  rwa [← chars, String.ofList_toList, decodedTable_verbatim, forall_verbatimColumns] at whole

end Table

/-- Where nothing misleads those that look for comments, the texts come back exactly if no backslash in them is read
together with anything. -/
theorem gives_verbatimTable_iff (value member : String) (members : List String)
    (untabbed : ∀ x ∈ value :: member :: members, '\t' ∉ x.toList)
    (plain : (∀ x ∈ value :: member :: members, Guarded '\x27' x.toList) ∨
      Bland (verbatimTable value member members).toList) :
    (Definition.read .postgres (verbatimTable value member members)).Gives
        (.createTable (verbatimTable value member members) (verbatimDecoded value member members)) ↔
      ∀ x ∈ value :: member :: members, Unescaped x.toList := by
  have whole := gives_verbatim_iff (fun x => x) untabbed plain
  rw [List.map_id'] at whole
  simpa only [verbatim_text_iff] using whole

/-- Quotes, comments and line ends are what they are between quotes, and so are backslashes. -/
theorem gives_verbatimTable_misleading :
    (∀ x ∈ ["it's -- no; comment", "/* C:\\dir\n # ", "''", ""], '\t' ∉ x.toList) ∧
      (Definition.read .postgres (verbatimTable "it's -- no; comment" "/* C:\\dir\n # " ["''", ""])).Gives
        (.createTable (verbatimTable "it's -- no; comment" "/* C:\\dir\n # " ["''", ""])
          (verbatimDecoded "it's -- no; comment" "/* C:\\dir\n # " ["''", ""])) := by
  have untabbed : ∀ x ∈ ["it's -- no; comment", "/* C:\\dir\n # ", "''", ""], '\t' ∉ x.toList := by decide +kernel
  have guarded : ∀ x ∈ ["it's -- no; comment", "/* C:\\dir\n # ", "''", ""], Guarded '\x27' x.toList := by
    decide +kernel
  exact ⟨untabbed, (gives_verbatimTable_iff _ _ _ untabbed (.inl guarded)).mpr (by decide +kernel)⟩

/-- A backslash is read together with a letter behind it and hides a quote behind it from those that look for comments,
and tabs are read as spaces. -/
theorem not_gives_verbatimTable :
    (Definition.read .postgres (verbatimTable "\\t" "x" [])).Gives
        (.createTable (verbatimTable "\\t" "x" []) (verbatimDecoded "\t" "x" [])) ∧
      (Definition.read .postgres (verbatimTable "\t" "x" [])).Gives
        (.createTable (verbatimTable "\t" "x" []) (verbatimDecoded "        " "x" [])) ∧
      ¬ (Definition.read .postgres (verbatimTable "\\" "--x" [])).Gives
        (.createTable (verbatimTable "\\" "--x" []) (verbatimDecoded "\\" "--x" [])) := by
  have filled : (Definition.read .postgres (verbatimTable "\t" "x" [])).Gives
      (.createTable (verbatimTable "\t" "x" []) (verbatimDecoded "        " "x" [])) := by
    rw [Definition.read_of_untouched (by decide +kernel)]
    decide +kernel
  refine ⟨?_, filled, by decide +kernel⟩
  have read : (Definition.read .postgres (verbatimTable "\\t" "x" [])).Gives
      (.createTable (verbatimTable "\\t" "x" []) (verbatimDecoded (verbatim "\\t").text (verbatim "x").text [])) :=
    (gives_verbatim_iff (fun x => (verbatim x).text) (by decide +kernel) (.inl (by decide +kernel))).mpr
      fun _ _ => rfl
  have texts : (verbatim "\\t").text = "\t" ∧ (verbatim "x").text = "x" := by decide +kernel
  rwa [texts.1, texts.2] at read

end SqlSchema.Written
