import SqlSchema.Proofs.Definition.Interruption
import SqlSchema.Proofs.Statement.Kind
import SqlSchema.Proofs.Statement.Visible
import SqlSchema.Proofs.Token.Role

/-! Statements about the schema that are not taken for such. The first word of a text decides whether its dialect's rules
are tried, and its first token of code tells the kind of any other statement. The two differ where a comment or a hint
stands in front of the code, and where something that can be seen directly follows its first keyword. -/
namespace SqlSchema

namespace Tree
open Text Token Statement Attempt

/-- A keyword about the schema that is not the first word of its text. -/
def Disguised (cs : List Char) : Prop :=
  ∃ front t rest, Led (scan cs) front t rest ∧ t.isKeyword = true ∧ openingWord t.text ∈ schemaWords ∧
    ((∃ u ∈ front, u.isSpace = false) ∨ ∃ c, (textOf rest).head? = some c ∧ isBlank c = false)

/-- One of the words about the schema, or a phrase that begins with one. -/
def OfSchema (kind : String) : Prop := String.ofList (firstWord kind.toList) ∈ schemaWords

instance (kind : String) : Decidable (OfSchema kind) := inferInstanceAs (Decidable (_ ∈ _))

theorem openingWord_of_led {cs : List Char} {front rest : List Token} {t : Token} (led : Led (scan cs) front t rest)
    (filled : firstWord t.text ≠ []) (bare : ∀ u ∈ front, u.isSpace = true)
    (parted : ∀ c, (textOf rest).head? = some c → isBlank c = true) : openingWord cs = openingWord t.text := by
  have white : ∀ c ∈ textOf front, isBlank c = true := by
    intro c member
    obtain ⟨u, among, inside⟩ := List.mem_flatMap.mp member
    have whole : u ∈ scan cs := led.split ▸ List.mem_append_left _ among
    exact (taken_of_scanFrom none cs u whole).blank (bare u among) c inside
  have split : cs = textOf front ++ (t.text ++ textOf rest) := by
    rw [← textOf_scan cs, led.split, textOf_append, textOf, textOf, textOf, List.flatMap_cons]
  rw [openingWord, openingWord, split, firstWord_blank_append white, firstWord_append_of_parted filled parted]

theorem ofSchema_iff_of_signals {cs : List Char} {front rest : List Token} {t : Token} {kind : String}
    (led : Led (scan cs) front t rest) (signals : Signals t rest kind) :
    OfSchema kind ↔ t.isKeyword = true ∧ openingWord t.text ∈ schemaWords := by
  have scanned {u : Token} (member : u ∈ t :: rest) : u ∈ scan cs := led.split ▸ List.mem_append_right front member
  cases signals with
  | opening listed =>
    have apart : ∀ word ∈ openingWords, word ∉ schemaWords := by decide
    refine iff_of_false ?_ fun keyword => apart _ listed keyword.2
    rw [OfSchema, String.toList_ofList, firstWord_upper, firstWord_firstWord]
    exact apart _ listed
  | keyword reserved first =>
    rw [OfSchema, first, and_iff_right reserved]
    rfl
  | @named u clause inside query =>
    have apart : ∀ word ∈ queryWords, ¬ OfSchema word := by decide
    have listed := wordKind_of_scanFrom (scanned (List.mem_cons_of_mem t inside)) (by rw [query]; rfl)
    have own := wordKind_of_scanFrom (scanned (List.mem_cons_self ..)) (by rw [clause]; rfl)
    have word := congrArg String.toList (eq_with_of_wordKind (own.trans clause))
    rw [String.toList_ofList] at word
    refine iff_of_false (apart _ (mem_queryWords_of_wordKind (listed.trans query))) fun keyword => ?_
    rw [openingWord, ← firstWord_upper, word] at keyword
    exact absurd keyword.2 (by decide)

/-- Where the first word is not about the schema, the kind is only if the word is in disguise. -/
theorem ofSchema_iff_disguised {cs : List Char} {kind : String} (foreign : openingWord cs ∉ schemaWords)
    (known : classify cs = .ok (.known kind)) : OfSchema kind ↔ Disguised cs := by
  obtain ⟨front, t, rest, led, signals⟩ := signals_of_classify known
  rw [ofSchema_iff_of_signals led signals]
  constructor
  · intro holds
    obtain ⟨reserved, listed⟩ := holds
    refine ⟨front, t, rest, led, reserved, listed, ?_⟩
    by_contra bare
    rw [not_or] at bare
    have filled : firstWord t.text ≠ [] := by
      intro empty
      rw [openingWord, empty] at listed
      exact absurd listed (by decide)
    have same := openingWord_of_led led filled (by simpa using bare.1) (by simpa using bare.2)
    exact foreign (same ▸ listed)
  · intro disguised
    obtain ⟨_, first, _, other, reserved, listed, _⟩ := disguised
    rw [led.unique other]
    exact ⟨reserved, listed⟩

theorem gives_ofPlain_other_iff (d : Dialect) (cs : List Char) (kind plain : String) :
    (ofPlain d cs).Gives (.other kind plain) ↔
      cs ≠ [] ∧ openingWord cs ∉ schemaWords ∧ classify cs = .ok (.known kind) ∧ String.ofList cs = plain := by
  unfold ofPlain
  cases cs with
  | nil => simp
  | cons c rest =>
    simp only [List.isEmpty_cons, Bool.false_eq_true, if_false, List.contains_iff_mem]
    split
    next known => simp [known]
    next foreign =>
      simp only [foreign, not_false_iff, true_and, ne_eq, reduceCtorEq, gives_bind, gives_lift]
      constructor
      · intro holds
        obtain ⟨found, told, given⟩ := holds
        cases found with
        | known word =>
          cases (gives_pure ..).mp given
          exact ⟨told, rfl⟩
        | unknown | missing => exact absurd given (gives_throw _ _)
      · rintro ⟨told, rfl⟩
        exact ⟨_, told, rfl⟩

/-- Without its comments, the text begins with a keyword in disguise. -/
def ReadsDisguised (d : Dialect) (text : String) : Prop :=
  ∃ plain, strip d text.toList = .ok plain ∧ Disguised (dropSemicolon plain)

theorem ofSchema_of_gives {d : Dialect} {text kind plain : String}
    (given : (Tree.read d text).Gives (.other kind plain)) : OfSchema kind ↔ ReadsDisguised d text := by
  simp only [read, gives_bind, gives_lift, gives_ofPlain_other_iff] at given
  obtain ⟨cs, stripped, _, foreign, known, _⟩ := given
  rw [ofSchema_iff_disguised foreign known]
  constructor
  · exact fun disguised => ⟨cs, stripped, disguised⟩
  · rintro ⟨again, same, disguised⟩
    cases stripped.symm.trans same
    exact disguised

end Tree

namespace Definition
open SqlSchema.Tree Statement Attempt

/-- Where a text is taken for a statement of another kind, or rejected for it, that kind is about the schema exactly if
its keyword is in disguise. -/
theorem ofSchema_iff_readsDisguised (d : Dialect) (text kind : String) :
    (∀ plain, (Tree.read d text).Gives (.other kind plain) → (OfSchema kind ↔ ReadsDisguised d text)) ∧
      ((read d text).Rejects ⟨.otherStatement kind, text⟩ → (OfSchema kind ↔ ReadsDisguised d text)) := by
  refine ⟨fun plain given => ofSchema_of_gives given, fun rejected => ?_⟩
  obtain ⟨plain, given⟩ := (rejects_other_iff ..).mp rejected
  exact ofSchema_of_gives given

/-- The hint is no keyword, and the kind is told behind the names of the queries. -/
theorem ofSchema_iff_readsDisguised_with :
    (Tree.read .mysql "/*+ DROP */ WITH a AS (SELECT 1) DELETE FROM a").Gives
        (.other "DELETE" "/*+ DROP */ WITH a AS (SELECT 1) DELETE FROM a") ∧
      (read .mysql "/*+ DROP */ WITH a AS (SELECT 1) DELETE FROM a").Rejects
        ⟨.otherStatement "DELETE", "/*+ DROP */ WITH a AS (SELECT 1) DELETE FROM a"⟩ ∧
      ¬ ReadsDisguised .mysql "/*+ DROP */ WITH a AS (SELECT 1) DELETE FROM a" := by
  have given : (Tree.read .mysql "/*+ DROP */ WITH a AS (SELECT 1) DELETE FROM a").Gives
      (.other "DELETE" "/*+ DROP */ WITH a AS (SELECT 1) DELETE FROM a") := by decide +kernel
  have rejected := (rejects_other_iff ..).mpr ⟨_, given⟩
  have sides := ofSchema_iff_readsDisguised .mysql "/*+ DROP */ WITH a AS (SELECT 1) DELETE FROM a" "DELETE"
  have foreign : ¬ OfSchema "DELETE" := by decide
  exact ⟨given, rejected, mt (sides.1 _ given).mpr foreign⟩

/-- A hint in front of the keyword, and a quotation mark directly behind it. -/
theorem rejects_disguised :
    OfSchema "CREATE" ∧ (read .mysql "/*+ h */ CREATE TABLE t (a int)").Rejects
        ⟨.otherStatement "CREATE", "/*+ h */ CREATE TABLE t (a int)"⟩ ∧
      OfSchema "TRUNCATE" ∧ (read .mysql "TRUNCATE\x60t\x60").Rejects
        ⟨.otherStatement "TRUNCATE", "TRUNCATE\x60t\x60"⟩ := by
  have hinted : (Tree.read .mysql "/*+ h */ CREATE TABLE t (a int)").Gives
      (.other "CREATE" "/*+ h */ CREATE TABLE t (a int)") := by decide +kernel
  have quoted : (Tree.read .mysql "TRUNCATE\x60t\x60").Gives (.other "TRUNCATE" "TRUNCATE\x60t\x60") := by
    decide +kernel
  exact ⟨by decide, (rejects_other_iff ..).mpr ⟨_, hinted⟩, by decide, (rejects_other_iff ..).mpr ⟨_, quoted⟩⟩

end Definition

end SqlSchema
