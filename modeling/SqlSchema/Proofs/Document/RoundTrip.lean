import SqlSchema.Proofs.Document.Float

/-! Documents read back from JSON. The machine that reads goes through what is written for a document, wherever a value is
due, and has read that document behind it. -/
namespace SqlSchema.Document

/-- All numbers in a document are finite. -/
inductive Finite : Document → Prop
  | null : Finite .null
  | bool (value : Bool) : Finite (.bool value)
  | integer (value : Int) : Finite (.integer value)
  | float {value : Binary64} (finite : value.IsFinite) : Finite (.float value)
  | text (value : String) : Finite (.text value)
  | list {items : List Document} (all : ∀ item ∈ items, Finite item) : Finite (.list items)
  | mapping {entries : List (String × Document)} (all : ∀ entry ∈ entries, Finite entry.2) : Finite (.mapping entries)

namespace Json
open Text Written

/-- A value may come next: the innermost mapping has a key for it. -/
def Takes : List Frame → Prop
  | .mapping _ none :: _ => False
  | _ => True

theorem takes_list (items : List Document) (outer : List Frame) : Takes (.list items :: outer) := trivial

theorem takes_mapping (entries : List (String × Document)) (key : String) (outer : List Frame) :
    Takes (.mapping entries (some key) :: outer) := trivial

/-- What follows a word is no part of it. -/
def Parted (rest : List Char) : Prop := ∀ c ∈ rest.head?, parts c = true

variable {frames : List Frame} {document : Document} {rest : List Char}

/-! White space. -/

/-- White space changes nothing. -/
def Idle (s : State) : Prop := ∀ c, isSpace c = true → step s c = some s

theorem idle_due (frames : List Frame) : Idle ⟨frames, .due⟩ := fun c space => by
  simp [begin, space]

theorem idle_past (frames : List Frame) (document : Document) : Idle ⟨frames, .past document⟩ := fun c space => by
  simp [follow, space]

theorem Idle.run_newLine {s : State} (idle : Idle s) (level : Nat) (rest : List Char) :
    run s (newLine level ++ rest) = run s rest := by
  have space {c : Char} (space : isSpace c = true) (rest : List Char) : run s (c :: rest) = run s rest := by
    rw [run_cons, idle c space, Option.bind_some]
  rw [newLine, List.cons_append, space rfl]
  induction 2 * level with
  | zero => rfl
  | succ n ih => rw [List.replicate_succ, List.cons_append, space rfl, ih]

/-! Words. -/

theorem begin_word {c : Char} (takes : Takes frames) (inner : parts c = false) :
    begin frames c = some ⟨frames, .word [c]⟩ := by
  have space : isSpace c = false := by
    rw [parts, Bool.or_eq_false_iff] at inner
    exact inner.1
  have quote : c ≠ '\x22' := by rintro rfl; contradiction
  have brace : c ≠ '\x7b' := by rintro rfl; contradiction
  have unbrace : c ≠ '\x7d' := by rintro rfl; contradiction
  have bracket : c ≠ '[' := by rintro rfl; contradiction
  have unbracket : c ≠ ']' := by rintro rfl; contradiction
  unfold begin
  rw [space, if_neg Bool.false_ne_true]
  split <;> simp_all [Takes]

theorem run_word_append (front cs rest : List Char) (inner : ∀ c ∈ cs, parts c = false) :
    run ⟨frames, .word front⟩ (cs ++ rest) = run ⟨frames, .word (front ++ cs)⟩ rest := by
  induction cs generalizing front with
  | nil => rw [List.nil_append, List.append_nil]
  | cons c cs ih =>
    rw [List.forall_mem_cons] at inner
    rw [List.cons_append, run_cons, step_word, inner.1, if_neg Bool.false_ne_true, Option.bind_some, ih _ inner.2,
      List.append_assoc, List.singleton_append]

theorem run_word_end {cs : List Char} (means : word? cs = some document) (parted : Parted rest) :
    run ⟨frames, .word cs⟩ rest = run ⟨frames, .past document⟩ rest := by
  cases rest with
  | nil => cases frames <;> simp [run, finish, means]
  | cons c rest =>
    have part : parts c = true := parted c rfl
    simp [part, means]

theorem run_word {cs : List Char} (takes : Takes frames) (means : word? cs = some document)
    (inner : ∀ c ∈ cs, parts c = false) (parted : Parted rest) :
    run ⟨frames, .due⟩ (cs ++ rest) = run ⟨frames, .past document⟩ rest := by
  cases cs with
  | nil => contradiction
  | cons c cs =>
    rw [List.forall_mem_cons] at inner
    rw [List.cons_append, run_cons, step_due, begin_word takes inner.1, Option.bind_some, run_word_append _ _ _ inner.2,
      List.singleton_append, run_word_end means parted]

theorem word?_of_number? {cs : List Char} (number : number? cs = some document) : word? cs = some document := by
  unfold word?
  split
  next same => rw [same] at number; contradiction
  next =>
    split
    next same => rw [same] at number; contradiction
    next =>
      split
      next same => rw [same] at number; contradiction
      next => exact number

theorem not_parts_of_isDigit {c : Char} (digit : c.isDigit = true) : parts c = false := by
  rw [Bool.eq_false_iff]
  intro part
  simp only [parts, isSpace, List.mem_cons, List.not_mem_nil, or_false, Bool.or_eq_true, decide_eq_true_eq] at part
  rcases part with (rfl | rfl | rfl | rfl) | rfl | rfl | rfl | rfl | rfl | rfl | rfl <;> contradiction

theorem not_parts_of_mem_sign {sign : Sign} {c : Char} (member : c ∈ sign.chars) : parts c = false := by
  cases sign with
  | none => contradiction
  | plus =>
    cases List.mem_singleton.1 member
    rfl
  | minus =>
    cases List.mem_singleton.1 member
    rfl

theorem not_parts_of_mem_figures (n : Figures) : ∀ c ∈ n.chars, parts c = false := by
  rw [Figures.chars, List.forall_mem_append]
  exact ⟨fun c => not_parts_of_mem_sign, fun c member => not_parts_of_isDigit (n.decimal c member)⟩

theorem not_parts_of_mem_scientific (n : Scientific) : ∀ c ∈ n.chars, parts c = false := by
  have digits : ∀ c ∈ n.whole ++ n.places, parts c = false := fun c member => not_parts_of_isDigit (n.decimal c member)
  rw [List.forall_mem_append] at digits
  simp only [Scientific.chars, List.forall_mem_append]
  refine ⟨fun c => not_parts_of_mem_sign, digits.1, ?_, ?_⟩
  · unfold Scientific.pointed
    cases point : n.fraction with
    | none => exact List.forall_mem_nil _
    | some places =>
      have behind := digits.2
      rw [Scientific.places, point] at behind
      exact List.forall_mem_cons.2 ⟨rfl, behind⟩
  · unfold Scientific.exponentChars
    cases n.power with
    | none => exact List.forall_mem_nil _
    | some p =>
      refine List.forall_mem_cons.2 ⟨?_, not_parts_of_mem_figures p.figures⟩
      rcases p.introduced with same | same <;> rw [same] <;> rfl

theorem run_integer (takes : Takes frames) (parted : Parted rest) (value : Int) :
    run ⟨frames, .due⟩ ((toString value).toList ++ rest) = run ⟨frames, .past (.integer value)⟩ rest := by
  refine run_word takes (word?_of_number? (number?_integer value)) ?_ parted
  rw [toList_toString_int]
  exact not_parts_of_mem_figures _

theorem run_float (takes : Takes frames) (parted : Parted rest) {value : Binary64} (finite : value.IsFinite) :
    run ⟨frames, .due⟩ (value.text.toList ++ rest) = run ⟨frames, .past (.float value)⟩ rest := by
  refine run_word takes (word?_of_number? (value.number?_text finite)) ?_ parted
  obtain ⟨n, -, chars, -⟩ := value.exists_strict_text finite
  rw [← chars]
  exact not_parts_of_mem_scientific n

/-! Texts. -/

theorem characters?_map_toNat (cs : List Char) : characters? (cs.map Char.toNat) = some cs := by
  induction cs with
  | nil => rfl
  | cons c cs ih =>
    have whole : ¬ (0xd800 ≤ c.toNat ∧ c.toNat < 0xdc00) := by
      have valid : c.toNat.isValidChar := c.valid
      unfold Nat.isValidChar at valid
      omega
    have valid : c.toNat.isValidChar := c.valid
    rw [List.map_cons, characters?.eq_def]
    dsimp only
    rw [if_neg whole, ih, character?, if_pos valid, Char.ofNat_toNat]
    rfl

theorem hex_control : ∀ n < 0x20, hex 4 n = ['0', '0', Nat.digitChar (n / 16), Nat.digitChar (n % 16)] := by
  decide +kernel

theorem hexDigit?_digitChar : ∀ n < 16, hexDigit? (Nat.digitChar n) = some n := by decide +kernel

theorem run_hex (units : List Nat) {n : Nat} (control : n < 0x20) (rest : List Char) :
    run ⟨frames, .text (.digits 0 0) units⟩ (hex 4 n ++ rest) = run ⟨frames, .text .none (units ++ [n])⟩ rest := by
  have zero : hexDigit? '0' = some 0 := rfl
  have value : 16 * (n / 16) + n % 16 = n := Nat.div_add_mod n 16
  simp [hex_control n control, spell, zero, hexDigit?_digitChar (n / 16) (by omega), hexDigit?_digitChar (n % 16) (by omega),
    value]

/-- An escaped character is read back as one unit. -/
theorem run_escape (c : Char) (units : List Nat) (rest : List Char) :
    run ⟨frames, .text .none units⟩ (escape c ++ rest) = run ⟨frames, .text .none (units ++ [c.toNat])⟩ rest := by
  unfold escape
  split
  case h_8 quote slash _ _ _ _ _ =>
    split
    next control => exact run_hex units control rest
    next plain =>
      rw [List.singleton_append, run_cons, step_text, spell, if_neg quote, if_neg slash, if_neg plain, Option.bind_some]
  all_goals rfl

theorem run_flatMap_escape (cs : List Char) (units : List Nat) (rest : List Char) :
    run ⟨frames, .text .none units⟩ (cs.flatMap escape ++ rest) =
      run ⟨frames, .text .none (units ++ cs.map Char.toNat)⟩ rest := by
  induction cs generalizing units with
  | nil => rw [List.flatMap_nil, List.nil_append, List.map_nil, List.append_nil]
  | cons c cs ih =>
    rw [List.flatMap_cons, List.append_assoc, run_escape, ih, List.map_cons, List.append_assoc, List.singleton_append]

theorem run_quote (text : String) (rest : List Char) :
    run ⟨frames, .due⟩ (quote text ++ rest) = run (close text frames) rest := by
  have opening : begin frames '\x22' = some ⟨frames, .text .none []⟩ := rfl
  rw [quote, List.cons_append, List.cons_append, run_cons, step_due, opening, Option.bind_some, List.append_assoc,
    run_flatMap_escape, List.nil_append, List.singleton_append, run_cons, step_text, spell, if_pos rfl,
    characters?_map_toNat, Option.map_some, Option.bind_some, String.ofList_toList]

theorem run_text (takes : Takes frames) (text : String) (rest : List Char) :
    run ⟨frames, .due⟩ (quote text ++ rest) = run ⟨frames, .past (.text text)⟩ rest := by
  rw [run_quote]
  unfold close
  split
  next => contradiction
  next => rfl

theorem run_key (entries : List (String × Document)) (key : String) (outer : List Frame) (rest : List Char) :
    run ⟨.mapping entries none :: outer, .due⟩ (quote key ++ ':' :: ' ' :: rest) =
      run ⟨.mapping entries (some key) :: outer, .due⟩ rest := by
  have space : isSpace ' ' = true := rfl
  have colon : isSpace ':' = false := rfl
  rw [run_quote, close]
  simp [colon, begin, space]

/-! Documents. -/

/-- Going through what is written for a document, the machine reads the document. -/
def Reads (document : Document) : Prop := ∀ (level : Nat) (frames : List Frame) (rest : List Char), Takes frames →
  Parted rest → run ⟨frames, .due⟩ (write level document ++ rest) = run ⟨frames, .past document⟩ rest

theorem parted_newLine (level : Nat) (rest : List Char) : Parted (newLine level ++ rest) := by
  rintro c ⟨⟩
  rfl

theorem parted_items (level : Nat) (items : List Document) (inner : Nat) (rest : List Char) :
    Parted (writeItems inner items ++ (newLine level ++ rest)) := by
  cases items with
  | nil => exact parted_newLine level rest
  | cons item items =>
    rintro c ⟨⟩
    rfl

theorem parted_entries (level : Nat) (entries : List (String × Document)) (inner : Nat) (rest : List Char) :
    Parted (writeEntries inner entries ++ (newLine level ++ rest)) := by
  cases entries with
  | nil => exact parted_newLine level rest
  | cons entry entries =>
    rintro c ⟨⟩
    rfl

theorem begin_list (takes : Takes frames) : begin frames '[' = some ⟨.list [] :: frames, .due⟩ := by
  unfold Takes at takes
  split at takes
  next => contradiction
  next other =>
    unfold begin
    simp [show isSpace '[' = false from rfl]

theorem begin_mapping (takes : Takes frames) : begin frames '\x7b' = some ⟨.mapping [] none :: frames, .due⟩ := by
  unfold Takes at takes
  split at takes
  next => contradiction
  next other =>
    unfold begin
    simp [show isSpace '\x7b' = false from rfl]

/-- The items behind one that has been read, up to the end of their list. Those before it stand in the frame. -/
theorem run_items {items : List Document} (all : ∀ item ∈ items, Reads item) (level : Nat) (outer : List Frame)
    (before : List Document) (document : Document) (rest : List Char) :
    run ⟨.list before :: outer, .past document⟩ (writeItems (level + 1) items ++ (newLine level ++ ']' :: rest)) =
      run ⟨outer, .past (.list (before ++ document :: items))⟩ rest := by
  induction items generalizing before document with
  | nil =>
    rw [writeItems, List.nil_append, (idle_past _ _).run_newLine]
    rfl
  | cons item items ih =>
    rw [List.forall_mem_cons] at all
    have comma : follow (.list before :: outer) document ',' = some ⟨.list (before ++ [document]) :: outer, .due⟩ := rfl
    simp only [writeItems, List.cons_append, List.append_assoc, run_cons, step_past, comma, Option.bind_some,
      (idle_due _).run_newLine]
    rw [all.1 _ _ _ (takes_list ..) (parted_items _ _ _ _), ih all.2, List.append_assoc, List.singleton_append]

theorem run_entries {entries : List (String × Document)} (all : ∀ entry ∈ entries, Reads entry.2) (level : Nat)
    (outer : List Frame) (before : List (String × Document)) (key : String) (document : Document) (rest : List Char) :
    run ⟨.mapping before (some key) :: outer, .past document⟩
      (writeEntries (level + 1) entries ++ (newLine level ++ '\x7d' :: rest)) =
      run ⟨outer, .past (.mapping (before ++ (key, document) :: entries))⟩ rest := by
  induction entries generalizing before key document with
  | nil =>
    rw [writeEntries, List.nil_append, (idle_past _ _).run_newLine]
    rfl
  | cons entry entries ih =>
    obtain ⟨name, value⟩ := entry
    rw [List.forall_mem_cons] at all
    have comma : follow (.mapping before (some key) :: outer) document ',' =
      some ⟨.mapping (before ++ [(key, document)]) none :: outer, .due⟩ := rfl
    simp only [writeEntries, List.cons_append, List.append_assoc, run_cons, step_past, comma, Option.bind_some,
      (idle_due _).run_newLine, run_key]
    rw [all.1 _ _ _ (takes_mapping ..) (parted_entries _ _ _ _), ih all.2, List.append_assoc, List.singleton_append]

theorem reads_list {items : List Document} (all : ∀ item ∈ items, Reads item) : Reads (.list items) := by
  intro level frames rest takes _
  cases items with
  | nil =>
    rw [write, List.cons_append, run_cons, step_due, begin_list takes]
    rfl
  | cons item items =>
    rw [List.forall_mem_cons] at all
    simp only [write, List.cons_append, List.append_assoc, List.nil_append, run_cons, step_due, begin_list takes,
      Option.bind_some, (idle_due _).run_newLine]
    rw [all.1 _ _ _ (takes_list ..) (parted_items _ _ _ _), run_items all.2, List.nil_append]

theorem reads_mapping {entries : List (String × Document)} (all : ∀ entry ∈ entries, Reads entry.2) :
    Reads (.mapping entries) := by
  intro level frames rest takes _
  cases entries with
  | nil =>
    rw [write, List.cons_append, run_cons, step_due, begin_mapping takes]
    rfl
  | cons entry entries =>
    obtain ⟨name, value⟩ := entry
    rw [List.forall_mem_cons] at all
    simp only [write, List.cons_append, List.append_assoc, List.nil_append, run_cons, step_due, begin_mapping takes,
      Option.bind_some, (idle_due _).run_newLine, run_key]
    rw [all.1 _ _ _ (takes_mapping ..) (parted_entries _ _ _ _), run_entries all.2, List.nil_append]

theorem reads_of_finite (finite : document.Finite) : Reads document := by
  intro level frames rest takes parted
  -- Documents are nested in lists; the induction is on what makes them finite, which speaks of every item.
  induction finite generalizing level frames rest with
  | null => exact run_word takes rfl (by decide : ∀ c ∈ "null".toList, parts c = false) parted
  | bool value =>
    cases value with
    | false => exact run_word takes rfl (by decide : ∀ c ∈ "false".toList, parts c = false) parted
    | true => exact run_word takes rfl (by decide : ∀ c ∈ "true".toList, parts c = false) parted
  | integer value => exact run_integer takes parted value
  | float finite => exact run_float takes parted finite
  | text value => exact run_text takes value rest
  | list _ all => exact reads_list all level frames rest takes parted
  | mapping _ all => exact reads_mapping all level frames rest takes parted

end Json

/-- A finite document is read back from its text. -/
theorem read?_json {document : Document} (finite : document.Finite) : Json.read? document.json = some document := by
  have reads := Json.reads_of_finite finite 0 [] [] trivial (by nofun)
  rw [List.append_nil] at reads
  rw [Json.read?, json, String.toList_ofList, reads]
  rfl

/-- Other layouts, and characters that need not be escaped, are read as well. -/
example : (Json.read? "[\x7b\"a\": [-1, 25e-1, \"\\ud83d\\ude00\\n\"]\x7d , null]").map inspect =
    some "[\x7b'a': [-1, 2.5, '😀\\n']\x7d, None]" := by decide +kernel

end SqlSchema.Document
