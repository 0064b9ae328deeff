import Mathlib.Data.List.Chain
import SqlSchema.Proofs.Written.Numeral

/-! Attributes of columns as they are written, in any order and any number. The rules read them back one by one. -/
namespace SqlSchema.Written
open Text Reader

inductive Key where
  | primary
  | uniqueKey
  | unique
  | spatialKey
  | key
deriving DecidableEq

namespace Key

def words : Key → List String
  | .primary => ["PRIMARY", "KEY"]
  | .uniqueKey => ["UNIQUE", "KEY"]
  | .unique => ["UNIQUE"]
  | .spatialKey => ["SPATIAL", "KEY"]
  | .key => ["KEY"]

def tree : Key → Tree.KeyOption
  | .primary => .primary
  | .uniqueKey => .uniqueKey
  | .unique => .unique
  | .spatialKey => .spatialKey
  | .key => .key

def decoded : Key → KeyOption
  | .primary => .primary
  | .uniqueKey => .uniqueKey
  | .unique => .unique
  | .spatialKey => .spatialKey
  | .key => .key

end Key

/-- What may be said of a column behind its type. -/
inductive Trait where
  | notNull
  | null
  | default (n : Figures)
  | defaultNull
  | autoIncrement
  | key (k : Key)
  | charset (w : Word)
  | characterSet (w : Word)
  | collate (w : Word)
  | onUpdate
deriving DecidableEq

namespace Trait

def chars : Trait → List Char
  | .notNull => spaced ["NOT", "NULL"]
  | .null => spaced ["NULL"]
  | .default n => spaced ["DEFAULT"] ++ ' ' :: n.chars
  | .defaultNull => spaced ["DEFAULT", "NULL"]
  | .autoIncrement => spaced ["AUTO_INCREMENT"]
  | .key k => spaced k.words
  | .charset w => spaced ["CHARSET", w.text]
  | .characterSet w => spaced ["CHARACTER", "SET", w.text]
  | .collate w => spaced ["COLLATE", w.text]
  | .onUpdate => spaced ["ON", "UPDATE", "CURRENT_TIMESTAMP"]

def tree : Trait → Attribute
  | .notNull => .notNull true
  | .null => .notNull false
  | .default n => .default n.literal
  | .defaultNull => .default ⟨.placeholder, "null"⟩
  | .autoIncrement => .autoIncrement
  | .key k => .key k.tree
  | .charset w | .characterSet w => .charset w.text
  | .collate w => .collate w.text
  | .onUpdate => .onUpdate

/-- The word that an attribute ends in, where any may be written. -/
def word? : Trait → Option Word
  | .charset w | .characterSet w | .collate w => some w
  | _ => none

/-- `GO` and a space end a statement. -/
def Separates (t : Trait) : Prop := ∃ w ∈ t.word?, w.text = "GO"

instance (t : Trait) : Decidable t.Separates := inferInstanceAs (Decidable (∃ w ∈ t.word?, w.text = "GO"))

end Trait

/-- Where `UNIQUE` stands in front of `KEY` they make one key. -/
def Unfused (ts : List Trait) : Prop := ts.IsChain fun t u => ¬ (t = .key .unique ∧ u = .key .key)

instance (ts : List Trait) : Decidable (Unfused ts) := inferInstanceAs (Decidable (ts.IsChain _))

end SqlSchema.Written

namespace SqlSchema.Reader.Rule
open Text Written

/-- A list is ended, or goes on with one of the words. -/
inductive Onward (words : List String) : List Char → Prop
  | closed {cs : List Char} (closed : Closed cs) : Onward words cs
  | word {word : String} (member : word ∈ words) (rest : List Char) : Onward words (' ' :: (word.toList ++ rest))

namespace Onward

variable {words : List String} {cs : List Char}

theorem mono {more : List String} (onward : Onward words cs) (subset : ∀ word ∈ words, word ∈ more) :
    Onward more cs := by
  cases onward with
  | closed closed => exact .closed closed
  | word member rest => exact .word (subset _ member) rest

theorem parted (onward : Onward words cs) : Parted cs := by
  cases onward with
  | closed closed => exact closed.parted
  | word member rest => exact parted_cons ' ' _ (by decide)

theorem foreign {others : List String} (onward : Onward words cs) (spoken : ∀ word ∈ words, Spoken word)
    (apart : ∀ word ∈ words, ∀ other ∈ others, Apart other word.toList)
    (ended : ∀ c ∈ [',', ')'], ∀ other ∈ others, Apart other [c]) : Foreign others cs := by
  cases onward with
  | closed closed =>
    obtain ⟨c, among, head⟩ := closed
    obtain ⟨tail, rfl⟩ := List.head?_eq_some_iff.mp head
    have seen : ∀ c ∈ [',', ')'], Cursor.isGap c = false := by decide
    exact foreign_of_char (seen c among) (ended c among)
  | word member rest => exact foreign_of_word (spoken _ member) (apart _ member)

theorem refuses_keyword (other : String) (onward : Onward words cs) (spoken : ∀ word ∈ words, Spoken word)
    (apart : ∀ word ∈ words, Apart other word.toList) (ended : ∀ c ∈ [',', ')'], Apart other [c]) :
    (keyword other).Refuses cs :=
  have foreign : Foreign [other] cs := onward.foreign spoken
    (fun word member => List.forall_mem_singleton.mpr (apart word member))
    (fun c member => List.forall_mem_singleton.mpr (ended c member))
  foreign other (List.mem_singleton_self _)

/-- Marks that no word begins with and no list ends with. -/
theorem refuses_head {α : Type} {r : Rule α} (onward : Onward words cs) (spoken : ∀ word ∈ words, Spoken word)
    (refused : ∀ first rest, Cursor.isGap first = false → (first ∈ [',', ')'] ∨ touchesKeyword first = true) →
      r.Refuses (first :: rest)) : r.Refuses cs := by
  cases onward with
  | closed closed =>
    obtain ⟨c, among, head⟩ := closed
    obtain ⟨tail, rfl⟩ := List.head?_eq_some_iff.mp head
    have seen : ∀ c ∈ [',', ')'], Cursor.isGap c = false := by decide
    exact refused c tail (seen c among) (.inl among)
  | word member rest =>
    have begins := spoken _ member
    obtain ⟨first, more, letters, seen⟩ := begins.seen.split
    rw [Spoken, letters, List.head?_cons, Option.any_some] at begins
    rw [refuses_gap ' ' rfl, letters]
    exact refused first _ seen (.inr begins)

theorem refuses_mark {sign : Char} (onward : Onward words cs) (spoken : ∀ word ∈ words, Spoken word)
    (other : sign ∉ [',', ')']) (quiet : touchesKeyword sign = false) : (mark sign).Refuses cs := by
  refine onward.refuses_head spoken fun first rest seen either => Rule.refuses_mark seen ?_
  rintro rfl
  rcases either with among | touches
  · exact other among
  · rw [quiet] at touches
    contradiction

theorem refuses_doubleColon (onward : Onward words cs) (spoken : ∀ word ∈ words, Spoken word) :
    doubleColon.Refuses cs := by
  refine onward.refuses_head spoken fun first rest seen either => refuses_recognised (by simp [seen]) ?_
  have other : first ≠ ':' := by
    rintro rfl
    rcases either with among | touches
    · exact absurd among (by decide)
    · exact absurd touches (by decide)
  simp [Ne.symm other]

end Onward

variable {rest : List Char}

/-! Single attributes. -/

/-- The kinds of attributes, in the order in which they are tried. -/
def attributeRules (d : Dialect) : List (Rule Attribute) := [
  constant (.notNull true) ["NOT", "NULL"],
  constant (.notNull false) ["NULL"],
  attributed .default ["DEFAULT"] (defaultValue d),
  constant .autoIncrement ["AUTO_INCREMENT"],
  constant (.key .primary) ["PRIMARY", "KEY"],
  constant (.key .uniqueKey) ["UNIQUE", "KEY"],
  constant (.key .unique) ["UNIQUE"],
  constant (.key .spatialKey) ["SPATIAL", "KEY"],
  constant (.key .key) ["KEY"],
  attributed .comment ["COMMENT"] (stringLiteral d),
  columnAttribute.charset,
  attributed .collate ["COLLATE"] word,
  columnAttribute.onUpdate]

def attributeOpenings : List (List String) := [
  ["NOT"], ["NULL"], ["DEFAULT"], ["AUTO_INCREMENT"], ["PRIMARY"], ["UNIQUE"], ["UNIQUE"], ["SPATIAL"], ["KEY"],
  ["COMMENT"], ["CHARACTER", "CHARSET"], ["COLLATE"], ["ON"]]

theorem opened_attributeRules (d : Dialect) : List.Forall₂ OpenedBy attributeOpenings (attributeRules d) := by
  have charset : columnAttribute.charset.OpenedBy ["CHARACTER", "CHARSET"] := by
    refine (openedBy_choice _ fun r member => ?_).bind
    rcases List.mem_pair.mp member with rfl | rfl
    · exact openedBy_keywords (by simp) _
    · exact openedBy_keyword (by simp)
  have onUpdate : columnAttribute.onUpdate.OpenedBy ["ON"] := (openedBy_keywords (by simp) _).bind
  unfold attributeOpenings attributeRules
  repeat' first
    | exact charset
    | exact onUpdate
    | exact openedBy_constant (by simp) _ _
    | exact openedBy_attributed (by simp) _ _ _
    | constructor

theorem takes_columnAttribute (d : Dialect) {cs : List Char} {a : Attribute} (n : Nat)
    (foreign : ∀ words ∈ attributeOpenings.take n, Foreign words cs)
    (taken : Takes (choice (.named "attribute") ((attributeRules d).drop n)) cs a rest) :
    (columnAttribute d).Takes cs a rest :=
  takes_choice_from (opened_attributeRules d) n foreign taken

theorem takes_constant {α : Type} (a : α) {words : List String} (filled : words ≠ [])
    (spoken : ∀ word ∈ words, Spoken word) (parted : Parted rest) :
    (constant a words).Takes (spaced words ++ rest) a rest :=
  (takes_keywords filled spoken parted.not_touching).bind (takes_pure a rest)

/-- A clause of words only is told by the first of them. -/
theorem takes_attribute_words (d : Dialect) {a : Attribute} {word : String} {more : List String}
    {others : List (Rule Attribute)} (n : Nat) (found : (attributeRules d).drop n = constant a (word :: more) :: others)
    (spoken : ∀ w ∈ word :: more, Spoken w)
    (apart : ∀ openings ∈ attributeOpenings.take n, ∀ other ∈ openings, Apart other word.toList)
    (parted : Parted rest) : (columnAttribute d).Takes (spaced (word :: more) ++ rest) a rest := by
  refine takes_columnAttribute d n (fun openings member => ?_) ?_
  · rw [spaced_cons]
    exact foreign_of_word (spoken word (List.mem_cons_self ..)) (apart openings member)
  · rw [found]
    exact Takes.choice _ (takes_constant a (List.cons_ne_nil _ _) spoken parted)

/-- A clause of a word and what it introduces. -/
theorem takes_attributed (d : Dialect) {α : Type} {make : α → Attribute} {word : String} {r : Rule α}
    {others : List (Rule Attribute)} {cs : List Char} {a : α} (n : Nat)
    (found : (attributeRules d).drop n = attributed make [word] r :: others) (spoken : Spoken word)
    (apart : ∀ openings ∈ attributeOpenings.take n, ∀ other ∈ openings, Apart other word.toList)
    (value : r.Takes cs a rest) : (columnAttribute d).Takes (' ' :: (word.toList ++ ' ' :: cs)) (make a) rest := by
  refine takes_columnAttribute d n (fun openings member => foreign_of_word spoken (apart openings member)) ?_
  rw [found]
  have intro_ : (keywords [word]).Takes (' ' :: (word.toList ++ ' ' :: cs)) () (' ' :: cs) :=
    (takes_gap ' ' rfl).mpr (takes_keyword spoken (touches_of_gap ' ' rfl))
  exact Takes.choice _ (intro_.bind (Takes.bind ((takes_gap ' ' rfl).mpr value) (takes_pure _ _)))

theorem takes_default (d : Dialect) {cs : List Char} {l : Tree.Literal} (value : (defaultValue d).Takes cs l rest) :
    (columnAttribute d).Takes (' ' :: ("DEFAULT".toList ++ ' ' :: cs)) (.default l) rest :=
  takes_attributed d 2 rfl (by decide) (by decide) value

/-- In Postgres no type follows the value. -/
theorem takes_defaultValue_of_value (d : Dialect) {cs : List Char} {l : Tree.Literal} (taken : (value d).Takes cs l rest)
    (plain : doubleColon.Refuses rest) : (defaultValue d).Takes cs l rest := by
  cases d with
  | mysql => exact taken
  | postgres => exact taken.bind (Takes.bind plain.bind.optional (takes_pure _ _))

theorem refuses_string (d : Dialect) {first : Char} (seen : Cursor.isGap first = false)
    (bare : first ≠ '\x27' ∧ first ≠ '\x22') : (string d).Refuses (first :: rest) := by
  cases d with
  | mysql =>
    apply refuses_choice
    intro r member
    rcases List.mem_pair.mp member with rfl | rfl
    · exact refuses_quoted seen bare.1
    · exact refuses_quoted seen bare.2
  | postgres => exact refuses_quoted seen bare.1

theorem takes_null (d : Dialect) (parted : Parted rest) :
    (value d).Takes ("NULL".toList ++ rest) ⟨.placeholder, "null"⟩ rest := by
  have word : (keyword "NULL").Takes ("NULL".toList ++ rest) () rest := takes_keyword (by decide) parted.not_touching
  have visible : ("NULL".toList ++ rest).head?.any Cursor.isGap = false := rfl
  have lettered_ (kind : Tree.LiteralKind) (name : String) (letter : Char) (isPart : Char → Bool) :
      (lettered kind name letter isPart).Refuses ("NULL".toList ++ rest) := refuses_recognised visible rfl
  have sized_ (kind : Tree.LiteralKind) (name : String) {size? : List Char → Option Nat}
      (missed : size? ("NULL".toList ++ rest) = none) : (sized kind name size?).Refuses ("NULL".toList ++ rest) :=
    refuses_recognised visible (by rw [missed, Option.map_none])
  have strings : (string d).Refuses ("NULL".toList ++ rest) := refuses_string d (by decide) (by decide)
  have literals : (literal d).Refuses ("NULL".toList ++ rest) := by
    refine refuses_choice _ _ fun r member => ?_
    simp only [List.mem_cons, List.not_mem_nil, or_false] at member
    rcases member with rfl | rfl | rfl | rfl | rfl | rfl | rfl
    · exact lettered_ _ _ _ _
    · exact lettered_ _ _ _ _
    · exact sized_ _ _ rfl
    · exact sized_ _ _ rfl
    · exact sized_ _ _ rfl
    · exact strings.bind
    · exact sized_ _ _ (by cases d <;> rfl)
  exact literals.choice (Takes.choice _ (word.bind (takes_pure _ _)))

theorem takes_unique (d : Dialect) (parted : Parted rest) (keyless : (keyword "KEY").Refuses rest) :
    (columnAttribute d).Takes (spaced ["UNIQUE"] ++ rest) (.key .unique) rest := by
  have taken : (keywords ["UNIQUE"]).Takes (spaced ["UNIQUE"] ++ rest) () rest :=
    takes_keywords (by decide) (by decide) parted.not_touching
  have unkeyed : (constant (Attribute.key .uniqueKey) ["UNIQUE", "KEY"]).Refuses (spaced ["UNIQUE"] ++ rest) :=
    (refuses_keywords_later _ taken keyless).bind
  have apart : ∀ openings ∈ attributeOpenings.take 5, ∀ other ∈ openings, Apart other "UNIQUE".toList := by
    decide
  refine takes_columnAttribute d 5 (fun openings member => ?_) (unkeyed.choice (Takes.choice _ ?_))
  · rw [spaced_cons]
    exact foreign_of_word (by decide) (apart openings member)
  · exact takes_constant _ (by decide) (by decide) parted

theorem takes_key (d : Dialect) (k : Key) (parted : Parted rest)
    (keyless : k = .unique → (keyword "KEY").Refuses rest) :
    (columnAttribute d).Takes (spaced k.words ++ rest) (.key k.tree) rest := by
  cases k with
  | primary => exact takes_attribute_words d 4 rfl (by decide) (by decide) parted
  | uniqueKey => exact takes_attribute_words d 5 rfl (by decide) (by decide) parted
  | unique => exact takes_unique d parted (keyless rfl)
  | spatialKey => exact takes_attribute_words d 7 rfl (by decide) (by decide) parted
  | key => exact takes_attribute_words d 8 rfl (by decide) (by decide) parted

theorem takes_spacedWord (w : Word) (parted : Parted rest) : word.Takes (' ' :: (w.text.toList ++ rest)) w.text rest :=
  (takes_gap ' ' rfl).mpr (takes_word w parted)

theorem takes_charset (d : Dialect) {intro_ : List String} (known : intro_ ∈ [["CHARACTER", "SET"], ["CHARSET"]]) (w : Word)
    (parted : Parted rest) :
    (columnAttribute d).Takes (spaced intro_ ++ ' ' :: (w.text.toList ++ rest)) (.charset w.text) rest := by
  have apart : ∀ openings ∈ attributeOpenings.take 10, ∀ other ∈ openings, Apart other "CHARACTER".toList ∧
      Apart other "CHARSET".toList := by decide
  have named := takes_spacedWord w parted
  rcases List.mem_pair.mp known with rfl | rfl
  · refine takes_columnAttribute d 10 (fun openings member => ?_) (Takes.choice _ ?_)
    · rw [spaced_cons]
      exact foreign_of_word (by decide) fun other among => (apart openings member other among).1
    · have words : (keywords ["CHARACTER", "SET"]).Takes (spaced ["CHARACTER", "SET"] ++ ' ' :: (w.text.toList ++ rest)) ()
          (' ' :: (w.text.toList ++ rest)) := takes_keywords (by decide) (by decide) (touches_of_gap ' ' rfl)
      exact (Takes.choice _ words).bind (named.bind (takes_pure _ _))
  · refine takes_columnAttribute d 10 (fun openings member => ?_) (Takes.choice _ ?_)
    · rw [spaced_cons]
      exact foreign_of_word (by decide) fun other among => (apart openings member other among).2
    · have word : (keyword "CHARSET").Takes (spaced ["CHARSET"] ++ ' ' :: (w.text.toList ++ rest)) ()
          (' ' :: (w.text.toList ++ rest)) := takes_keywords (List.cons_ne_nil "CHARSET" []) (by decide) (touches_of_gap ' ' rfl)
      have other : (keywords ["CHARACTER", "SET"]).Refuses (spaced ["CHARSET"] ++ ' ' :: (w.text.toList ++ rest)) := by
        rw [spaced_cons]
        exact refuses_keywords _ (refuses_keyword_of_word (by decide) (by decide))
      exact (other.choice (Takes.choice _ word)).bind (named.bind (takes_pure _ _))

theorem takes_onUpdate (d : Dialect) (parted : Parted rest) (bare : (mark '(').Refuses rest) :
    (columnAttribute d).Takes (spaced ["ON", "UPDATE", "CURRENT_TIMESTAMP"] ++ rest) .onUpdate rest := by
  have apart : ∀ openings ∈ attributeOpenings.take 12, ∀ other ∈ openings, Apart other "ON".toList := by decide
  have split : spaced ["ON", "UPDATE", "CURRENT_TIMESTAMP"] ++ rest =
      spaced ["ON", "UPDATE"] ++ (spaced ["CURRENT_TIMESTAMP"] ++ rest) := by simp [spaced]
  have words : (keywords ["ON", "UPDATE"]).Takes (spaced ["ON", "UPDATE"] ++ (spaced ["CURRENT_TIMESTAMP"] ++ rest)) ()
      (spaced ["CURRENT_TIMESTAMP"] ++ rest) := takes_keywords (by decide) (by decide) (touches_of_gap ' ' rfl)
  have word : (keyword "CURRENT_TIMESTAMP").Takes (spaced ["CURRENT_TIMESTAMP"] ++ rest) () rest :=
    takes_keywords (List.cons_ne_nil "CURRENT_TIMESTAMP" []) (by decide) parted.not_touching
  refine takes_columnAttribute d 12 (fun openings member => ?_) (Takes.choice _ ?_)
  · rw [spaced_cons]
    exact foreign_of_word (by decide) (apart openings member)
  · rw [split]
    exact words.bind (Takes.bind (word.bind (bare.bind.optional.bind (takes_pure _ _))) (takes_pure _ _))

/-! Lists of attributes. -/

/-- The words that attributes begin with. -/
def traitWords : List String :=
  ["NOT", "NULL", "DEFAULT", "AUTO_INCREMENT", "PRIMARY", "UNIQUE", "SPATIAL", "KEY", "CHARSET", "CHARACTER", "COLLATE", "ON"]

theorem spoken_traitWords : ∀ word ∈ traitWords, Spoken word := by decide

/-- Only the bare `KEY` begins with that word. -/
theorem chars_trait (t : Trait) :
    ∃ word ∈ traitWords, (word = "KEY" → t = .key .key) ∧ ∃ more, t.chars = ' ' :: (word.toList ++ more) := by
  have listed (word : String) (words : List String) (member : word ∈ traitWords) (other : word = "KEY" → t = .key .key) :
      ∃ first ∈ traitWords, (first = "KEY" → t = .key .key) ∧
        ∃ more, spaced (word :: words) = ' ' :: (first.toList ++ more) :=
    ⟨word, member, other, spaced words, rfl⟩
  cases t with
  | default n => exact ⟨"DEFAULT", by decide, by simp, ' ' :: n.chars, rfl⟩
  | key k => cases k <;> exact listed _ _ (by decide) (by simp)
  | _ => exact listed _ _ (by decide) (by simp)

theorem onward_traits (ts : List Trait) (closed : Closed rest) :
    Onward traitWords (ts.flatMap Trait.chars ++ rest) := by
  cases ts with
  | nil => exact .closed closed
  | cons t others =>
    obtain ⟨word, member, _, more, split⟩ := chars_trait t
    rw [List.flatMap_cons, List.append_assoc, split, List.cons_append, List.append_assoc]
    exact .word member _

theorem takes_trait (d : Dialect) (t : Trait) (onward : Onward traitWords rest)
    (keyless : t = .key .unique → (keyword "KEY").Refuses rest) :
    (columnAttribute d).Takes (t.chars ++ rest) t.tree rest := by
  have parted := onward.parted
  have plain := onward.refuses_doubleColon spoken_traitWords
  cases t with
  | notNull => exact takes_attribute_words d 0 rfl (by decide) (by decide) parted
  | null => exact takes_attribute_words d 1 rfl (by decide) (by decide) parted
  | default n =>
    have split : (Trait.default n).chars ++ rest = ' ' :: ("DEFAULT".toList ++ ' ' :: (n.chars ++ rest)) := by
      simp [Trait.chars, spaced]
    rw [split]
    exact takes_default d (takes_defaultValue_of_value d (takes_value d n parted) plain)
  | defaultNull =>
    have split : Trait.defaultNull.chars ++ rest = ' ' :: ("DEFAULT".toList ++ ' ' :: ("NULL".toList ++ rest)) := rfl
    rw [split]
    exact takes_default d (takes_defaultValue_of_value d (takes_null d parted) plain)
  | autoIncrement => exact takes_attribute_words d 3 rfl (by decide) (by decide) parted
  | key k => exact takes_key d k parted fun same => keyless (congrArg Trait.key same)
  | charset w =>
    have split : (Trait.charset w).chars ++ rest = spaced ["CHARSET"] ++ ' ' :: (w.text.toList ++ rest) := by
      simp [Trait.chars, spaced]
    rw [split]
    exact takes_charset d (by decide) w parted
  | characterSet w =>
    have split : (Trait.characterSet w).chars ++ rest =
        spaced ["CHARACTER", "SET"] ++ ' ' :: (w.text.toList ++ rest) := by simp [Trait.chars, spaced]
    rw [split]
    exact takes_charset d (by decide) w parted
  | collate w =>
    have split : (Trait.collate w).chars ++ rest = ' ' :: ("COLLATE".toList ++ ' ' :: (w.text.toList ++ rest)) := by
      simp [Trait.chars, spaced]
    have found : (attributeRules d).drop 11 = attributed .collate ["COLLATE"] word :: [columnAttribute.onUpdate] := rfl
    rw [split, Trait.tree]
    exact takes_attributed d 11 found (by decide) (by decide) (takes_word w parted)
  | onUpdate => exact takes_onUpdate d parted (onward.refuses_mark spoken_traitWords (by decide) (by decide))

/-- Attributes in any order are read one after the other, as long as no two of them make another. -/
theorem repeats_traits (d : Dialect) (ts : List Trait) (unfused : Unfused ts) (closed : Closed rest) :
    Repeats (columnAttribute d) (ts.flatMap Trait.chars ++ rest) (ts.map Trait.tree) rest := by
  have ended (words : List String) (apart : ∀ c ∈ [',', ')'], ∀ word ∈ words, Apart word [c]) : Foreign words rest :=
    (Onward.closed closed : Onward [] rest).foreign (List.forall_mem_nil _) (fun _ member => nomatch member) apart
  induction ts with
  | nil =>
    have apart : ∀ words ∈ attributeOpenings, ∀ c ∈ [',', ')'], ∀ word ∈ words, Apart word [c] := by decide
    exact (refuses_choice_opened (opened_attributeRules d) fun words member => ended words (apart words member)).repeats
  | cons t others ih =>
    have keyless : t = .key .unique → (keyword "KEY").Refuses (others.flatMap Trait.chars ++ rest) := by
      rintro rfl
      cases others with
      | nil => exact ended ["KEY"] (by decide) "KEY" (List.mem_cons_self ..)
      | cons u more =>
        have other : u ≠ .key .key := fun same => (List.isChain_cons_cons.mp unfused).1 ⟨rfl, same⟩
        have apart : ∀ word ∈ traitWords, word ≠ "KEY" → Apart "KEY" word.toList := by decide
        obtain ⟨word, member, single, tail, split⟩ := chars_trait u
        rw [List.flatMap_cons, List.append_assoc, split, List.cons_append, List.append_assoc]
        exact refuses_keyword_of_word (spoken_traitWords word member) (apart word member (mt single other))
    have taken := takes_trait d t (onward_traits others closed) keyless
    rw [List.flatMap_cons, List.append_assoc]
    refine taken.repeats ?_ (ih unfused.of_cons)
    obtain ⟨word, member, _, more, split⟩ := chars_trait t
    obtain ⟨first, letters, spelled, seen⟩ := (spoken_traitWords word member).seen.split
    have shorter := (List.dropWhile_suffix (l := others.flatMap Trait.chars ++ rest) Cursor.isGap).length_le
    rw [split, spelled, List.cons_append, List.dropWhile_cons_of_pos rfl, List.cons_append, List.cons_append,
      List.dropWhile_cons_of_neg (by simp [seen])]
    simp only [List.length_cons, List.length_append] at shorter ⊢
    omega

end SqlSchema.Reader.Rule
