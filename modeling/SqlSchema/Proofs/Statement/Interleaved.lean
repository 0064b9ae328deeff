import SqlSchema.Proofs.Statement.Quotation
import SqlSchema.Proofs.Statement.Uncommented
import SqlSchema.Proofs.Token.Zone

/-! Code and quoted texts in turn. Stripping a text of its comments leaves every quoted text as it is and where it is,
and of the code between them all that can be seen. -/
namespace SqlSchema.Statement
open Text Token

/-- A piece of code between white space. Nothing in it is quoted or opens a comment. -/
structure Stretch where
  chars : List Char
  bare : Uncommented chars
  front : chars.head?.any isBlank = true
  back : chars.getLast?.any isBlank = true

/-- Code with a quoted text behind every piece but the last. -/
structure Interleaved (d : Dialect) where
  parts : List (Stretch × Quote d)
  last : Stretch

namespace Interleaved
variable {d : Dialect}

def chars (t : Interleaved d) : List Char := t.parts.flatMap (fun (c, q) => c.chars ++ q.chars) ++ t.last.chars

/-- The text has the same quoted texts in the same places, and looks the same between them. -/
def Kept (t : Interleaved d) (cs : List Char) : Prop :=
  ∃ (codes : List (List Char × Quote d)) (rest : List Char), cs = codes.flatMap (fun (c, q) => c ++ q.chars) ++ rest ∧
    List.Forall₂ (fun code part => code.2 = part.2 ∧ visible code.1 = visible part.1.chars) codes t.parts ∧
      visible rest = visible t.last.chars

def sights (t : Interleaved d) : List (Sight d) :=
  t.parts.flatMap (fun (c, q) => Statement.sights d c.chars ++ [.quote q]) ++ Statement.sights d t.last.chars

end Interleaved

/-- No quote and nothing that opens a comment. -/
def IsCode (c : Char) : Prop := c ∉ enclosing ∧ c ≠ '#'

instance (c : Char) : Decidable (IsCode c) := inferInstanceAs (Decidable (_ ∧ _))

theorem opensComment_of_quote {rest : List Char} (quote : ∀ m, rest.head? = some m → isHashQuote m = true) (c : Char) :
    opensComment (c :: rest) = false := by
  cases rest with
  | nil => exact opensComment_single c
  | cons m rest =>
    have mark := quote m rfl
    by_contra opens
    have known := opener_of_opensComment (Bool.not_eq_false _ ▸ opens)
    simp only [openers, List.mem_cons, List.cons.injEq, List.not_mem_nil, or_false, and_true] at known
    rcases known with ⟨_, rfl⟩ | ⟨_, rfl⟩ | ⟨_, rfl⟩ <;> exact absurd mark (by decide)

section Legible
variable {d : Dialect} {P : Char → Prop} {rest : List Char} {o : List (Sight d)}

/-- Code of some kind in which nothing is quoted or opens a comment, with no word right at its end. -/
structure Fitting (P : Char → Prop) (cs : List Char) : Prop where
  filled : cs ≠ []
  bare : Uncommented cs
  code : ∀ c ∈ cs, P c
  apart : cs.getLast?.any isWord = false

instance (P : Char → Prop) [DecidablePred P] (cs : List Char) : Decidable (Fitting P cs) :=
  decidable_of_iff (cs ≠ [] ∧ Uncommented cs ∧ (∀ c ∈ cs, P c) ∧ cs.getLast?.any isWord = false)
    ⟨fun ⟨filled, bare, code, apart⟩ => ⟨filled, bare, code, apart⟩,
      fun fitting => ⟨fitting.filled, fitting.bare, fitting.code, fitting.apart⟩⟩

/-- Code in front of a quoted text, or at the end. -/
theorem Legible.code {code : List Char} (fitting : Fitting P code) (legible : Legible d P rest o)
    (quote : ∀ m, rest.head? = some m → isHashQuote m = true) (unzoned : rest.head? = some '\x27' → ¬ EndsInZone code) :
    Legible d P (code ++ rest) (sights d code ++ o) := by
  have suffix (front : List Char) (inside : front <:+ code) : Legible d P (front ++ rest) (sights d front ++ o) := by
    induction front with
    | nil => exact legible
    | cons b front ih =>
      have bare := fitting.bare.part inside.isInfix
      have later := ih ((List.suffix_cons ..).trans inside)
      have quiet : opensComment (b :: (front ++ rest)) = false :=
        bare.closed.quiet fun e _ => opensComment_of_quote quote e
      have last : ((b :: front).getLast?).any isWord = false := by
        obtain ⟨before, whole⟩ := inside
        obtain ⟨l, final⟩ : ∃ l, (b :: front).getLast? = some l :=
          ⟨_, List.getLast?_eq_some_getLast (List.cons_ne_nil b front)⟩
        have apart := fitting.apart
        rwa [← whole, List.getLast?_append, final, Option.some_or, ← final] at apart
      have plain : timeZone (b :: front ++ rest) = none :=
        timeZone_eq_none (fun e member => isHashQuote_of_plain (bare.plain e member).1) quote
          (fun head zone => unzoned head (zone.of_suffix inside)) last
      have seen : sights d (b :: front) = sights d [b] ++ sights d front := sights_append d [b] front
      rw [seen, List.append_assoc]
      exact .char (fitting.code b (inside.subset (List.mem_cons_self ..))) quiet plain later
  exact suffix code List.suffix_rfl

/-- No code begins with a quote. -/
theorem Fitting.isHashQuote_head {code cs : List Char} (fitting : Fitting P code) (begun : code <+: cs) (c : Char)
    (head : cs.head? = some c) : isHashQuote c = false := by
  obtain ⟨rest, rfl⟩ := begun
  obtain ⟨b, more, rfl⟩ := List.exists_cons_of_ne_nil fitting.filled
  cases Option.some.inj head
  exact isHashQuote_of_plain (fitting.bare.plain c (List.mem_cons_self ..)).1

theorem Stretch.fitting (c : Stretch) : Fitting IsCode c.chars where
  filled := by
    have blank := c.front
    rintro none
    rw [none] at blank
    contradiction
  bare := c.bare
  code := c.bare.plain
  apart := by
    have blank := c.back
    cases last : c.chars.getLast? with
    | none => rfl
    | some l =>
      rw [last, Option.any_some] at blank
      by_contra word
      rw [Option.any_some, Bool.not_eq_false] at word
      rw [isBlank_of_isWord l word] at blank
      contradiction

namespace Interleaved

theorem isHashQuote_head (t : Interleaved d) : ∀ c, t.chars.head? = some c → isHashQuote c = false := by
  obtain ⟨parts, last⟩ := t
  cases parts with
  | nil => exact last.fitting.isHashQuote_head List.prefix_rfl
  | cons part parts =>
    rw [chars, List.flatMap_cons, List.append_assoc, List.append_assoc]
    exact part.1.fitting.isHashQuote_head ⟨_, rfl⟩

theorem legible (t : Interleaved d) (steady : ∀ part ∈ t.parts, ∀ rest, part.2.Steady rest)
    (unzoned : ∀ part ∈ t.parts, part.2.mark = '\x27' → ¬ EndsInZone part.1.chars) :
    Legible d IsCode t.chars t.sights := by
  obtain ⟨parts, last⟩ := t
  induction parts with
  | nil =>
    have ending := (Legible.nil : Legible d IsCode [] []).code last.fitting (by simp) (by simp)
    rwa [List.append_nil, List.append_nil] at ending
  | cons part parts ih =>
    obtain ⟨here, others⟩ := List.forall_mem_cons.mp steady
    obtain ⟨apart, zones⟩ := List.forall_mem_cons.mp unzoned
    have quoted := Legible.quote part.2 (here _) (isHashQuote_head ⟨parts, last⟩) (ih others zones)
    have whole := quoted.code part.1.fitting (fun m head => Option.some.inj head ▸ part.2.isHashQuote_mark)
      fun head => apart (Option.some.inj head)
    simp only [chars, sights, List.flatMap_cons, List.append_assoc, List.singleton_append] at whole ⊢
    exact whole

end Interleaved
end Legible

/-! What is left. -/

section Outlined
variable {d : Dialect} {P : Char → Prop} {cs : List Char} {o : List (Sight d)}

theorem Outlined.visible {seen : List Char} (outlined : Outlined d P cs (seen.map .char)) :
    Statement.visible cs = seen := by
  generalize same : seen.map Sight.char = o at outlined
  induction outlined generalizing seen with
  | nil => exact (List.map_eq_nil_iff.mp same).symm
  | @char c cs o _ _ ih =>
    obtain ⟨first, later, rfl, here, rest⟩ := List.map_eq_append_iff.mp same
    rw [← List.singleton_append, visible_append, ih rest]
    rw [sights, List.map_inj_right fun _ _ => Sight.char.inj] at here
    rw [here]
  | quote q =>
    obtain ⟨c, _, rfl, char, _⟩ := List.map_eq_cons_iff.mp same
    contradiction

/-- The code in front of the first quoted text, and what follows it. -/
theorem Outlined.first {seen : List Char} {q : Quote d} (outlined : Outlined d P cs (seen.map .char ++ .quote q :: o)) :
    ∃ code rest, cs = code ++ (q.chars ++ rest) ∧ Statement.visible code = seen ∧ Outlined d P rest o := by
  generalize same : seen.map Sight.char ++ Sight.quote q :: o = whole at outlined
  induction outlined generalizing seen with
  | nil => simp at same
  | @char c cs later _ outlined ih =>
    cases blank : isBlank c with
    | true =>
      have none : sights d [c] = [] := sights_of_blank d (List.forall_mem_singleton.mpr blank)
      rw [none, List.nil_append] at same
      obtain ⟨code, rest, rfl, visible, further⟩ := ih same
      refine ⟨c :: code, rest, rfl, ?_, further⟩
      rw [← List.singleton_append, visible_append, visible_of_blank _ (List.forall_mem_singleton.mpr blank), visible]
      rfl
    | false =>
      have one : sights d [c] = [.char c] := by simp [sights, Statement.visible, blank]
      rw [one] at same
      cases seen with
      | nil => cases (List.cons.inj same).1
      | cons b seen =>
        obtain ⟨head, tail⟩ := List.cons.inj same
        obtain ⟨code, rest, rfl, visible, further⟩ := ih tail
        refine ⟨c :: code, rest, rfl, ?_, further⟩
        rw [← List.singleton_append, visible_append, visible, Sight.char.inj head]
        simp [Statement.visible, blank]
  | @quote cs later p _ _ outlined _ =>
    cases seen with
    | nil =>
      obtain ⟨head, rfl⟩ := List.cons.inj same
      rw [Sight.quote.inj head]
      exact ⟨[], cs, rfl, rfl, outlined⟩
    | cons b seen => cases (List.cons.inj same).1

theorem Interleaved.kept (t : Interleaved d) (outlined : Outlined d P cs t.sights) : t.Kept cs := by
  obtain ⟨parts, last⟩ := t
  induction parts generalizing cs with
  | nil => exact ⟨[], cs, rfl, .nil, outlined.visible⟩
  | cons part parts ih =>
    rw [sights, List.flatMap_cons, List.append_assoc, List.append_assoc] at outlined
    obtain ⟨code, rest, rfl, visible, further⟩ := outlined.first
    obtain ⟨codes, tail, rfl, alike, ending⟩ := ih further
    refine ⟨(code, part.2) :: codes, tail, ?_, .cons ⟨rfl, visible⟩ alike, ending⟩
    rw [List.flatMap_cons, List.append_assoc, List.append_assoc]

end Outlined

/-- Quoted texts in which nothing misleads are no comments, and what is left of a text has them all in their places and
the code between them. -/
theorem strip_interleaved (d : Dialect) (t : Interleaved d) (steady : ∀ part ∈ t.parts, ∀ rest, part.2.Steady rest)
    (unzoned : ∀ part ∈ t.parts, part.2.mark = '\x27' → ¬ EndsInZone part.1.chars) (shallow : ¬ TooDeep t.chars) :
    ∃ text, strip d t.chars = .ok text ∧ t.Kept text := by
  have feed : IsCode '\n' := by decide
  obtain ⟨text, found, outlined⟩ := (t.legible steady unzoned).strip (fun _ code => code) feed shallow
  exact ⟨text, found, t.kept outlined⟩

/-- A space between quoted texts. -/
def Stretch.space : Stretch := ⟨[' '], by decide +kernel, Code.gap.front, Code.gap.back⟩

/-- A string and a name with what would end them or open a comment elsewhere. -/
def Interleaved.misleading : Interleaved .mysql where
  parts := [
    (⟨" DEFAULT ".toList, by decide +kernel, by decide, by decide⟩,
      ⟨⟨'\x27', .any, false⟩, by decide, ['\\', '\x27', '-', '-', '\\', '\\', 'n'], by decide⟩),
    (⟨" , ".toList, by decide +kernel, by decide, by decide⟩,
      ⟨⟨'\x60', .nothing, false⟩, by decide, ['/', '*', '#', '\x60', '\x60'], by decide⟩)]
  last := .space

theorem strip_interleaved_misleading :
    (∀ part ∈ Interleaved.misleading.parts, ∀ rest, part.2.Steady rest) ∧
      (∀ part ∈ Interleaved.misleading.parts, part.2.mark = '\x27' → ¬ EndsInZone part.1.chars) ∧
      ¬ TooDeep Interleaved.misleading.chars ∧
      ∃ text, strip .mysql Interleaved.misleading.chars = .ok text ∧ Interleaved.misleading.Kept text := by
  have string (rest : List Char) : Text.Steady '\x27' rest ['\\', '\x27', '-', '-', '\\', '\\', 'n'] := by
    have last : Text.Steady '\x27' rest ['n'] := .char (by decide) (by decide) .nil
    have slashes : Text.Steady '\x27' rest ['\\', '\\', 'n'] :=
      .escaped (by decide) (fun _ => .inl ⟨'n', [], rfl, by decide⟩) last
    exact .escaped (by decide) (by simp) (.front ['-', '-'] (by decide) slashes)
  have steady : ∀ part ∈ Interleaved.misleading.parts, ∀ rest, part.2.Steady rest := by
    have name : ∀ c ∈ ['/', '*', '#', '\x60', '\x60'], isLineEnd c = false ∧ c ≠ '\x27' ∧ c ≠ '\x22' := by decide
    exact List.forall_mem_cons.mpr ⟨string, List.forall_mem_singleton.mpr fun _ => name⟩
  have unzoned : ∀ part ∈ Interleaved.misleading.parts, part.2.mark = '\x27' → ¬ EndsInZone part.1.chars := by
    decide +kernel
  have shallow : ¬ TooDeep Interleaved.misleading.chars := by
    rw [tooDeep_iff]
    decide +kernel
  exact ⟨steady, unzoned, shallow, strip_interleaved .mysql _ steady unzoned shallow⟩

/-- A backslash at the end of a string. -/
def Interleaved.slashed : Interleaved .postgres where
  parts := [
    (.space, ⟨⟨'\x27', .nothing, false⟩, by decide, ['\\'], by decide⟩),
    (.space, ⟨⟨'\x27', .nothing, false⟩, by decide, ['-', '-', 'x'], by decide⟩)]
  last := .space

/-- White space at the end of a line of a name. -/
def Interleaved.broken : Interleaved .mysql where
  parts := [(.space, ⟨⟨'\x60', .nothing, false⟩, by decide, ['a', ' ', '\n', 'b'], by decide⟩)]
  last := .space

theorem Interleaved.Kept.length_le {d : Dialect} {t : Interleaved d} {cs : List Char} (kept : t.Kept cs) :
    (t.parts.flatMap fun part => part.2.chars).length ≤ cs.length := by
  obtain ⟨codes, rest, rfl, alike, -⟩ := kept
  generalize t.parts = parts at alike
  induction alike with
  | nil => exact Nat.zero_le _
  | cons same _ ih =>
    rw [List.flatMap_cons, ← same.1]
    simp only [List.length_append, List.flatMap_cons] at ih ⊢
    omega

/-- The second string is taken for a comment, and the name loses its white space. -/
theorem not_strip_interleaved :
    (∃ text, strip .postgres Interleaved.slashed.chars = .ok text ∧ ¬ Interleaved.slashed.Kept text) ∧
      ∃ text, strip .mysql Interleaved.broken.chars = .ok text ∧ ¬ Interleaved.broken.Kept text := by
  refine ⟨⟨"'\\' '".toList, by decide +kernel, fun kept => absurd kept.length_le (by decide)⟩, ?_⟩
  exact ⟨"\x60a\nb\x60".toList, by decide +kernel, fun kept => absurd kept.length_le (by decide)⟩

end SqlSchema.Statement
