import SqlSchema.Proofs.Reader.Taking
import SqlSchema.Proofs.Text.Quoted
import SqlSchema.Reader.Column

/-! Words, marks, names and numerals as they are written: the smallest rules take their own spelling and refuse others.
What follows a word is told from it by one of four characters. -/
namespace SqlSchema.Reader
open Text

/-- What may stand behind a word or a numeral. -/
def separators : List Char := [' ', '(', ')', ',']

def Parted (cs : List Char) : Prop := ∃ c ∈ separators, cs.head? = some c

theorem parted_cons (c : Char) (cs : List Char) (separator : c ∈ separators) : Parted (c :: cs) :=
  ⟨c, separator, rfl⟩

theorem Parted.head {cs : List Char} (parted : Parted cs) (P : Char → Bool)
    (none : ∀ c ∈ separators, P c = false) : cs.head?.any P = false := by
  obtain ⟨c, separator, first⟩ := parted
  rw [first, Option.any_some, none c separator]

theorem Parted.not_touching {cs : List Char} (parted : Parted cs) : cs.head?.any Rule.touchesKeyword = false :=
  parted.head _ (by decide)

/-- The words of a keyword phrase, each behind a space. -/
def spaced (words : List String) : List Char := words.flatMap fun word => ' ' :: word.toList

theorem spaced_cons (word : String) (words : List String) (rest : List Char) :
    spaced (word :: words) ++ rest = ' ' :: (word.toList ++ (spaced words ++ rest)) := by
  simp [spaced]

/-- A keyword begins with a character that would touch a keyword in front of it. -/
def Spoken (word : String) : Prop := word.toList.head?.any Rule.touchesKeyword = true

instance (word : String) : Decidable (Spoken word) := inferInstanceAs (Decidable (_ = _))

theorem isGap_of_touches (c : Char) (touches : Rule.touchesKeyword c = true) : Cursor.isGap c = false := by
  cases gap : Cursor.isGap c with
  | false => rfl
  | true =>
    rw [touches_of_gap c gap] at touches
    contradiction

theorem Spoken.seen {word : String} (spoken : Spoken word) : Cursor.Seen word.toList := by
  unfold Spoken at spoken
  unfold Cursor.Seen
  cases letters : word.toList with
  | nil => simp [letters] at spoken
  | cons first more =>
    rw [letters, List.head?_cons, Option.any_some] at spoken
    simp [isGap_of_touches first spoken]

/-- The words have nothing in common but a part of both. -/
def Apart (word : String) (other : List Char) : Prop := ¬ upper (other.take word.length) <+: upper word.toList

instance (word : String) (other : List Char) : Decidable (Apart word other) := inferInstanceAs (Decidable (¬ _))

/-- Items joined by a comma and a number of spaces. -/
def joined (gap : Nat) (items : List (List Char)) : List Char := (',' :: List.replicate gap ' ').intercalate items

theorem joined_cons (gap : Nat) (item : List Char) (items : List (List Char)) :
    joined gap (item :: items) = item ++ items.flatMap fun i => ',' :: (List.replicate gap ' ' ++ i) := by
  induction items generalizing item with
  | nil => simp [joined]
  | cons next others ih =>
    have more := ih next
    unfold joined at more ⊢
    rw [List.intercalate_cons_cons, more]
    simp

/-- What ends an item of a list. -/
def Closed (cs : List Char) : Prop := ∃ c ∈ [',', ')'], cs.head? = some c

theorem Closed.parted {cs : List Char} (closed : Closed cs) : Parted cs := by
  obtain ⟨c, separator, first⟩ := closed
  have among : ∀ c ∈ [',', ')'], c ∈ separators := by decide
  exact ⟨c, among c separator, first⟩

theorem Closed.no_space {cs : List Char} (closed : Closed cs) : cs.head? ≠ some ' ' := by
  obtain ⟨c, among, first⟩ := closed
  have visible : ∀ c ∈ [',', ')'], c ≠ ' ' := by decide
  rw [first]
  exact fun same => visible c among (Option.some.inj same)

namespace Rule

variable {word : String} {front rest : List Char}

theorem takes_keyword (spoken : Spoken word) (ended : rest.head?.any touchesKeyword = false) :
    (keyword word).Takes (word.toList ++ rest) () rest := by
  intro c here
  have seen := spoken.seen
  have size : word.length = word.toList.length := String.length_toList.symm
  have taken : c.skipGap.rest.take word.length = word.toList := by rw [here.front seen, size, List.take_left]
  have left : c.skipGap.rest.drop word.length = rest := by rw [here.front seen, size, List.drop_left]
  refine ⟨c.skipGap.advance word.length, (reads_keyword ..).mpr ⟨?_, here.free seen spoken, ?_, rfl⟩, ?_⟩
  · rw [taken]
  · rw [left]
    exact ended
  · rw [size]
    exact here.behind seen (.inr ended)

theorem refuses_keyword (seen : Cursor.Seen front) (apart : Apart word front) :
    (keyword word).Refuses (front ++ rest) := by
  intro c here
  rw [fails_iff]
  intro u after found
  obtain ⟨same, _⟩ := (reads_keyword ..).mp found
  apply apart
  rw [here.front seen, List.take_append, upper_append] at same
  exact ⟨_, same⟩

theorem refuses_keyword_nil (filled : upper word.toList ≠ []) : (keyword word).Refuses [] := by
  intro c here
  rw [fails_iff]
  intro u after found
  obtain ⟨same, _⟩ := (reads_keyword ..).mp found
  rw [here.visible rfl, List.take_nil] at same
  exact filled same.symm

theorem refuses_keyword_of_word {other : String} (spoken : Spoken other) (apart : Apart word other.toList) :
    (keyword word).Refuses (' ' :: (other.toList ++ rest)) := by
  exact (refuses_gap ' ' rfl).mpr (refuses_keyword spoken.seen apart)

theorem refuses_keyword_of_char {c : Char} (seen : Cursor.isGap c = false) (apart : Apart word [c]) :
    (keyword word).Refuses (c :: rest) :=
  refuses_keyword (show Cursor.Seen [c] by simp [Cursor.Seen, seen]) apart

theorem takes_keywords {words : List String} (filled : words ≠ []) (spoken : ∀ word ∈ words, Spoken word)
    (ended : rest.head?.any touchesKeyword = false) : (keywords words).Takes (spaced words ++ rest) () rest := by
  induction words with
  | nil => exact absurd rfl filled
  | cons word more ih =>
    obtain ⟨here, later⟩ := List.forall_mem_cons.mp spoken
    rw [spaced_cons, takes_gap ' ' rfl]
    cases more with
    | nil => exact takes_keyword here ended
    | cons next others =>
      refine Takes.bind (takes_keyword here ?_) (ih (List.cons_ne_nil _ _) later)
      rw [spaced_cons, List.head?_cons]
      decide

theorem refuses_keywords {words : List String} (text : List Char) (refused : (keyword word).Refuses text) :
    (keywords (word :: words)).Refuses text := by
  cases words with
  | nil => exact refused
  | cons next others => exact refused.bind

theorem refuses_keywords_later {next : String} {others : List String} (text : List Char)
    (taken : (keyword word).Takes text () rest) (refused : (keyword next).Refuses rest) :
    (keywords (word :: next :: others)).Refuses text :=
  taken.refuses (refuses_keywords rest refused)

theorem takes_mark {sign : Char} (seen : Cursor.isGap sign = false) (quiet : touchesKeyword sign = false) :
    (mark sign).Takes (sign :: rest) () rest := by
  intro c here
  have visible : Cursor.Seen [sign] := by simp [Cursor.Seen, seen]
  have place : c.At ([sign] ++ rest) := here
  refine ⟨c.skipGap.advance 1, ?_, place.behind visible (.inl (by simp [quiet]))⟩
  exact (reads_mark ..).mpr ⟨rest, place.front visible, rfl⟩

theorem refuses_mark {sign first : Char} (seen : Cursor.isGap first = false) (different : first ≠ sign) :
    (mark sign).Refuses (first :: rest) := by
  intro c here
  have found : c.skipGap.rest = first :: rest := here.visible (by simp [seen])
  refine ⟨⟨c.skipGap.position, .shape (.mark (String.singleton sign))⟩, ?_⟩
  rw [read_mark, found]
  exact if_neg different

theorem takes_parenthesized {α : Type} {r : Rule α} {cs : List Char} {a : α}
    (inside : r.Takes cs a (')' :: rest)) : (parenthesized r).Takes ('(' :: cs) a rest := by
  refine Takes.bind (takes_mark (by decide) (by decide)) (Takes.bind inside ?_)
  exact Takes.bind (takes_mark (by decide) (by decide)) (takes_pure a rest)

section List
variable {α β : Type} {r : Rule α} (gap : Nat) (write : β → List Char) (value : β → α)

/-- What stands behind the first item of a list. -/
def later (items : List β) : List Char := items.flatMap fun b => ',' :: (List.replicate gap ' ' ++ write b)

theorem closed_later (items : List β) : Closed (later gap write items ++ ')' :: rest) := by
  cases items with
  | nil => exact ⟨')', by decide, rfl⟩
  | cons b others => exact ⟨',', by decide, rfl⟩

theorem repeats_later (items : List β)
    (each : ∀ b ∈ items, ∀ rest, Closed rest → r.Takes (write b ++ rest) (value b) rest) :
    Repeats (do comma; r) (later gap write items ++ ')' :: rest) (items.map value) (')' :: rest) := by
  induction items with
  | nil =>
    exact (refuses_mark (by decide) (by decide)).bind.repeats
  | cons b others ih =>
    obtain ⟨here, more⟩ := List.forall_mem_cons.mp each
    have after := here (later gap write others ++ ')' :: rest) (closed_later gap write others)
    have split : later gap write (b :: others) ++ ')' :: rest =
        ',' :: (List.replicate gap ' ' ++ (write b ++ (later gap write others ++ ')' :: rest))) := by
      simp [later]
    have taken : Takes (do comma; r) (later gap write (b :: others) ++ ')' :: rest) (value b)
        (later gap write others ++ ')' :: rest) := by
      rw [split]
      exact Takes.bind (takes_mark (by decide) (by decide)) (takes_spaces gap after)
    refine taken.repeats ?_ (ih more)
    have left := (List.dropWhile_suffix (l := later gap write others ++ ')' :: rest) Cursor.isGap).length_le
    rw [split, List.dropWhile_cons_of_neg (by decide)]
    simp only [List.length_cons, List.length_append, List.length_replicate] at left ⊢
    omega

theorem takes_listOf (items : List β) (filled : items ≠ [])
    (each : ∀ b ∈ items, ∀ rest, Closed rest → r.Takes (write b ++ rest) (value b) rest) :
    (listOf comma r).Takes (joined gap (items.map write) ++ ')' :: rest) (items.map value) (')' :: rest) := by
  obtain ⟨first, others, rfl⟩ := List.exists_cons_of_ne_nil filled
  obtain ⟨here, more⟩ := List.forall_mem_cons.mp each
  have split : joined gap ((first :: others).map write) ++ ')' :: rest =
      write first ++ (later gap write others ++ ')' :: rest) := by
    rw [List.map_cons, joined_cons, List.flatMap_map, List.append_assoc]
    rfl
  rw [split]
  refine Takes.bind (here _ (closed_later gap write others)) ?_
  exact Takes.bind (repeats_later gap write value others more).many (takes_pure _ _)

end List

end Rule
end SqlSchema.Reader
