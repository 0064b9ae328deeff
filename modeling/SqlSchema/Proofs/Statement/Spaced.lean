import SqlSchema.Proofs.Statement.Commented
import SqlSchema.Proofs.Statement.Laid

/-! Texts of pieces with separators between them. A separator is a gap with any number of gaps and comments behind it;
whatever separators a text has, it is left with the same pieces as with single spaces. -/
namespace SqlSchema.Statement
open Text Token Reader Reader.Cursor

/-- Ink in which no comment opens. -/
structure Piece where
  chars : List Char
  filled : chars ≠ []
  ink : ∀ c ∈ chars, isInk c = true
  undashed : ¬ ['-', '-'] <:+: chars
  unblocked : ¬ ['/', '*'] <:+: chars

/-- A comment up to the end of its line or up to its closing mark, or a character of a gap. -/
inductive Filler where
  | gap (c : Char) (blank : isGap c = true)
  | line (text : List Char) (oneLine : ∀ c ∈ text, isLineEnd c = false) (usual : text.head? ≠ some '+')
  | block (text : List Char) (open_ : ¬ ['*', '/'] <:+: text) (usual : text.head? ≠ some '+')

def Filler.chars : Filler → List Char
  | .gap c _ => [c]
  | .line text _ _ => '-' :: '-' :: text ++ ['\n']
  | .block text _ _ => '/' :: '*' :: text ++ ['*', '/']

/-- The filler without a comment. -/
def Filler.gaps : Filler → List Char
  | .gap c _ => [c]
  | .line .. | .block .. => []

structure Separator where
  first : Char
  blank : isGap first = true
  more : List Filler

def Separator.chars (s : Separator) : List Char := s.first :: s.more.flatMap Filler.chars

def Separator.gaps (s : Separator) : List Char := s.first :: s.more.flatMap Filler.gaps

def Separator.space : Separator := ⟨' ', rfl, []⟩

/-- Pieces with a separator in front of every one but the first. -/
structure Spaced where
  first : Piece
  more : List (Separator × Piece)

namespace Spaced

def chars (t : Spaced) : List Char := t.first.chars ++ t.more.flatMap fun (s, p) => s.chars ++ p.chars

/-- The text without its comments. -/
def code (t : Spaced) : List Char := t.first.chars ++ t.more.flatMap fun (s, p) => s.gaps ++ p.chars

def text (t : Spaced) : String := String.ofList t.chars

/-- The same pieces with single spaces between them. -/
def single (t : Spaced) : Spaced := { t with more := t.more.map fun (_, p) => (.space, p) }

theorem single_single (t : Spaced) : t.single.single = t.single := by
  simp [single]

end Spaced

/-! Pieces and separators are laid out. -/

section
variable {gapped : Bool} {rest code : List Char}

theorem Piece.visible (p : Piece) : ∀ c ∈ p.chars, isGap c = false := fun c member => isGap_of_isInk (p.ink c member)

theorem Piece.closed (p : Piece) : Closed p.chars :=
  closed_of_free p.unblocked p.undashed fun member => absurd (p.ink _ member) (by decide)

theorem opensComment_of_gap {c : Char} (gap : isGap c = true) : opensComment (c :: rest) = false := by
  have known : ∀ c ∈ [' ', '\n', '\t', '\r'], opensWith c = false := by decide
  by_contra opens
  rw [Bool.not_eq_false] at opens
  have opener := opensWith_of_opensComment opens
  simp only [isGap, Bool.or_eq_true, beq_iff_eq, or_assoc] at gap
  rw [known c (by simpa using gap)] at opener
  contradiction

/-- No comment opens with a character in front of a gap. -/
theorem quiet_of_gap {c : Char} (other : c ≠ '#') (gap : ∀ d, rest.head? = some d → isGap d = true) :
    opensComment (c :: rest) = false := by
  unfold opensComment
  split
  next same => exact absurd (gap '*' (by rw [(List.cons.inj same).2, List.head?_cons])) (by decide)
  next same => exact absurd (gap '-' (by rw [(List.cons.inj same).2, List.head?_cons])) (by decide)
  next same => exact absurd (List.cons.inj same).1 other
  next => rfl

theorem Laid.front {front : List Char} (inked : ∀ c ∈ front, Inked c) (closed : Closed front)
    (border : ∀ d, front.getLast? = some d → opensComment (d :: rest) = false)
    (laid : Laid (gappedBy gapped front) rest code) : Laid gapped (front ++ rest) (front ++ code) := by
  induction front generalizing gapped with
  | nil => exact laid
  | cons c more ih =>
    obtain ⟨here, later⟩ := List.forall_mem_cons.mp inked
    have last (d : Char) (final : more.getLast? = some d) : opensComment (d :: rest) = false :=
      border d (by rw [List.getLast?_cons, final, Option.getD_some])
    exact .char here (closed.quiet border) (ih later closed.tail last laid)

theorem Piece.gappedBy (p : Piece) : Reader.gappedBy gapped p.chars = false := by
  have last := List.getLast?_eq_some_getLast p.filled
  rw [gappedBy_of_last last, p.visible _ (List.mem_of_getLast? last)]

theorem Laid.piece (p : Piece) (gap : ∀ d, rest.head? = some d → isGap d = true) (laid : Laid false rest code) :
    Laid gapped (p.chars ++ rest) (p.chars ++ code) := by
  refine .front (fun c member => .inr (p.ink c member)) p.closed (fun d last => quiet_of_gap ?_ gap) (p.gappedBy ▸ laid)
  rintro rfl
  exact absurd (p.ink _ (List.mem_of_getLast? last)) (by decide)

theorem Laid.filler (f : Filler) (laid : Laid true rest code) : Laid true (f.chars ++ rest) (f.gaps ++ code) := by
  cases f with
  | gap c blank =>
    rw [← blank] at laid
    exact .char (.inl blank) (opensComment_of_gap blank) laid
  | line text oneLine usual =>
    have behind : afterLine (text ++ (['\n'] ++ rest)) = rest := afterLine_append oneLine _
    have whole : (Filler.line text oneLine usual).chars ++ rest = '-' :: '-' :: (text ++ (['\n'] ++ rest)) := by
      simp [Filler.chars]
    rw [whole]
    refine .line ?_ (behind.symm ▸ laid)
    cases text with
    | nil => simp
    | cons c text => exact usual
  | block text open_ usual =>
    have whole : (Filler.block text open_ usual).chars ++ rest = '/' :: '*' :: (text ++ '*' :: '/' :: rest) := by
      simp [Filler.chars]
    rw [whole]
    refine .block (afterBlock_append text rest open_) ?_ laid
    cases text with
    | nil => simp
    | cons c text => exact usual

theorem Laid.separator (s : Separator) (laid : Laid true rest code) :
    Laid gapped (s.chars ++ rest) (s.gaps ++ code) := by
  have fillers (fs : List Filler) :
      Laid true (fs.flatMap Filler.chars ++ rest) (fs.flatMap Filler.gaps ++ code) := by
    induction fs with
    | nil => exact laid
    | cons f fs ih =>
      rw [List.flatMap_cons, List.flatMap_cons, List.append_assoc, List.append_assoc]
      exact .filler f ih
  refine .char (.inl s.blank) (opensComment_of_gap s.blank) ?_
  rw [s.blank]
  exact fillers s.more

theorem Spaced.laid (t : Spaced) : Laid false t.chars t.code := by
  obtain ⟨first, more⟩ := t
  have parts (more : List (Separator × Piece)) :
      Laid false (more.flatMap fun (s, p) => s.chars ++ p.chars) (more.flatMap fun (s, p) => s.gaps ++ p.chars) ∧
        ∀ d, (more.flatMap fun (s, p) => s.chars ++ p.chars).head? = some d → isGap d = true := by
    induction more with
    | nil => exact ⟨.nil, fun d head => nomatch head⟩
    | cons part more ih =>
      obtain ⟨s, p⟩ := part
      rw [List.flatMap_cons, List.flatMap_cons, List.append_assoc, List.append_assoc]
      refine ⟨.separator s (.piece p ih.2 ih.1), fun d head => ?_⟩
      cases head
      exact s.blank
  exact .piece first (parts more).2 (parts more).1

/-! Separators are squeezed to single spaces. -/

theorem Separator.gap (s : Separator) : Gap s.gaps := by
  have fillers (fs : List Filler) : Gap (fs.flatMap Filler.gaps) := by
    induction fs with
    | nil => exact gap_nil
    | cons f fs ih =>
      rw [List.flatMap_cons]
      refine Gap.append ?_ ih
      cases f with
      | gap c blank => exact List.forall_mem_singleton.mpr blank
      | line | block => exact gap_nil
  exact List.forall_mem_cons.mpr ⟨s.blank, fillers s.more⟩

theorem Spaced.squeezed_code (t : Spaced) : squeezed false t.code = t.single.chars := by
  obtain ⟨first, more⟩ := t
  have parts (more : List (Separator × Piece)) :
      squeezed false (more.flatMap fun (s, p) => s.gaps ++ p.chars) =
        (more.map fun (_, p) => (Separator.space, p)).flatMap fun (s, p) => s.chars ++ p.chars := by
    induction more with
    | nil => rfl
    | cons part more ih =>
      obtain ⟨s, p⟩ := part
      rw [List.flatMap_cons, List.map_cons, List.flatMap_cons, List.append_assoc, List.append_assoc,
        squeezed_gap_of_filled s.gap (List.cons_ne_nil _ _), squeezed_visible p.visible p.filled, ih]
      rfl
  rw [code, squeezed_visible first.visible first.filled, parts]
  rfl

theorem Spaced.gappedBy_code (t : Spaced) : Reader.gappedBy false t.code = false := by
  obtain ⟨first, more⟩ := t
  have parts (more : List (Separator × Piece)) :
      Reader.gappedBy false (more.flatMap fun (s, p) => s.gaps ++ p.chars) = false := by
    induction more with
    | nil => rfl
    | cons part more ih => rw [List.flatMap_cons, gappedBy_append, gappedBy_append, part.2.gappedBy, ih]
  rw [code, gappedBy_append, first.gappedBy, parts]

theorem Spaced.headGap_code (t : Spaced) : t.code.head?.any isGap = false := by
  obtain ⟨c, others, letters⟩ := List.exists_cons_of_ne_nil t.first.filled
  rw [code, letters, List.cons_append, List.head?_cons]
  exact t.first.visible c (letters ▸ List.mem_cons_self ..)

end

/-- What is left of the text is what is left of it with single spaces, up to the length of gaps. -/
theorem Spaced.strip (t : Spaced) (brisk : Brisk (scan t.chars)) (shallow : ¬ TooDeep t.chars) (d : Dialect) :
    ∃ plain, Statement.strip d t.chars = .ok plain ∧ squeezed false plain = t.single.chars ∧ ∀ c ∈ plain, Inked c := by
  obtain ⟨plain, stripped, same⟩ := t.laid.strip t.headGap_code t.gappedBy_code brisk shallow d
  exact ⟨plain, stripped, same.trans t.squeezed_code, inked_of_squeezed same t.laid.inked⟩

end SqlSchema.Statement
