import SqlSchema.Proofs.Statement.Lines
import SqlSchema.Proofs.Text.Trim
import SqlSchema.Statement.Strip

/-! Comments after a number sign, where nothing is quoted: what can be seen of a text outside such comments, and that
tidying lines, cutting comments and trimming change nothing about it. -/
namespace SqlSchema.Statement
open Text

/-- Whether a comment after a number sign goes on behind the character. -/
def hashed (inside : Bool) (c : Char) : Bool := if inside then !isLineEnd c else c == '#'

def hashedBy (inside : Bool) (cs : List Char) : Bool := cs.foldl hashed inside

/-- What is seen of the character. -/
def shown (inside : Bool) (c : Char) : List Char := if inside || isBlank c || c == '#' then [] else [c]

/-- What is seen of a text outside comments after a number sign. -/
def seen (inside : Bool) : List Char → List Char
  | [] => []
  | c :: rest => shown inside c ++ seen (hashed inside c) rest

/-- The characters that are no white space. -/
def visible (cs : List Char) : List Char := cs.filter (!isBlank ·)

theorem hashedBy_append (inside : Bool) (front more : List Char) :
    hashedBy inside (front ++ more) = hashedBy (hashedBy inside front) more := List.foldl_append

theorem seen_append (inside : Bool) (front more : List Char) :
    seen inside (front ++ more) = seen inside front ++ seen (hashedBy inside front) more := by
  induction front generalizing inside with
  | nil => rfl
  | cons c front ih => rw [List.cons_append, seen, ih, seen, List.append_assoc]; rfl

theorem visible_append (front more : List Char) : visible (front ++ more) = visible front ++ visible more :=
  List.filter_append ..

theorem isBlank_of_isLineEnd (c : Char) (ends : isLineEnd c = true) : isBlank c = true := by
  simp only [isLineEnd, Bool.or_eq_true, beq_iff_eq] at ends
  rcases ends with rfl | rfl <;> decide

theorem seen_of_blank (inside : Bool) (cs : List Char) (blank : ∀ c ∈ cs, isBlank c = true) : seen inside cs = [] := by
  induction cs generalizing inside with
  | nil => rfl
  | cons c rest ih =>
    obtain ⟨here, later⟩ := List.forall_mem_cons.mp blank
    rw [seen, ih _ later, shown, here]
    simp

/-- White space opens no comment. -/
theorem hashedBy_of_blank (cs : List Char) (blank : ∀ c ∈ cs, isBlank c = true) : hashedBy false cs = false := by
  induction cs with
  | nil => rfl
  | cons c rest ih =>
    obtain ⟨here, later⟩ := List.forall_mem_cons.mp blank
    have other : c ≠ '#' := by
      rintro rfl
      exact absurd here (by decide)
    have still : hashed false c = false := by simp [hashed, other]
    rw [hashedBy, List.foldl_cons, still]
    exact ih later

/-- White space inside a line changes nothing. -/
theorem hashedBy_of_gap (inside : Bool) (cs : List Char) (blank : ∀ c ∈ cs, isBlank c = true)
    (single : ∀ c ∈ cs, isLineEnd c = false) : hashedBy inside cs = inside := by
  cases inside with
  | false => exact hashedBy_of_blank cs blank
  | true =>
    induction cs with
    | nil => rfl
    | cons c rest ih =>
      obtain ⟨here, later⟩ := List.forall_mem_cons.mp single
      have still : hashed true c = true := by simp [hashed, here]
      rw [hashedBy, List.foldl_cons, still]
      exact ih (List.forall_mem_cons.mp blank).2 later

theorem shown_of_ne {c : Char} (other : c ≠ '#') : shown false c = visible [c] := by
  cases blank : isBlank c <;> simp [shown, visible, other, blank]

theorem seen_of_free (cs : List Char) (free : '#' ∉ cs) : seen false cs = visible cs ∧ hashedBy false cs = false := by
  induction cs with
  | nil => exact ⟨rfl, rfl⟩
  | cons c rest ih =>
    rw [List.mem_cons, not_or] at free
    have still : hashed false c = false := by simpa [hashed] using Ne.symm free.1
    obtain ⟨same, last⟩ := ih free.2
    refine ⟨?_, by rw [hashedBy, List.foldl_cons, still]; exact last⟩
    rw [seen, still, same, shown_of_ne (Ne.symm free.1), ← visible_append, List.singleton_append]

/-! Lines. -/

/-- Characters that quote nothing. -/
def Unquoted (cs : List Char) : Prop := ∀ c ∈ cs, isHashQuote c = false

theorem trimRight_append (cs : List Char) : ∃ blanks, cs = trimRight cs ++ blanks ∧ ∀ c ∈ blanks, isBlank c = true := by
  refine ⟨(cs.reverse.takeWhile isBlank).reverse, ?_,
    fun c member => List.mem_takeWhile_imp (List.mem_reverse.mp member)⟩
  rw [trimRight, ← List.reverse_append, List.takeWhile_append_dropWhile, List.reverse_reverse]

/-- The same is seen of both texts, and the same of what stands behind them. -/
def Alike (cs ds : List Char) : Prop :=
  ∀ inside, seen inside cs = seen inside ds ∧ hashedBy inside cs = hashedBy inside ds

theorem Alike.append {front front' more more' : List Char} (first : Alike front front') (second : Alike more more') :
    Alike (front ++ more) (front' ++ more') := by
  intro inside
  obtain ⟨same, last⟩ := first inside
  obtain ⟨later, final⟩ := second (hashedBy inside front')
  exact ⟨by rw [seen_append, seen_append, same, last, later], by rw [hashedBy_append, hashedBy_append, last, final]⟩

theorem alike_trimRight (cs : List Char) (single : ∀ c ∈ cs, isLineEnd c = false) : Alike (trimRight cs) cs := by
  intro inside
  obtain ⟨blanks, split, blank⟩ := trimRight_append cs
  have inline : ∀ c ∈ blanks, isLineEnd c = false := fun c member => single c (by rw [split]; simp [member])
  constructor
  · conv_rhs => rw [split, seen_append, seen_of_blank _ blanks blank, List.append_nil]
  · conv_rhs => rw [split, hashedBy_append, hashedBy_of_gap _ blanks blank inline]

/-- The lines of a text, put together again. -/
def joinLines (lines : List (List Char)) : List Char := ['\n'].intercalate (lines.map trimRight)

theorem joinLines_cons (line : List Char) (lines : List (List Char)) (more : lines ≠ []) :
    joinLines (line :: lines) = trimRight line ++ '\n' :: joinLines lines := by
  obtain ⟨next, others, rfl⟩ := List.exists_cons_of_ne_nil more
  unfold joinLines
  rw [List.map_cons, List.map_cons, List.intercalate_cons_cons]
  simp

theorem linesFrom_ne_nil (current cs : List Char) : linesFrom current cs ≠ [] := by
  fun_induction linesFrom current cs <;> first | assumption | simp

theorem alike_line {current ending rest : List Char} (inline : ∀ c ∈ current, isLineEnd c = false)
    (ends : ending ∈ [['\n'], ['\r'], ['\r', '\n']]) (later : Alike (joinLines (linesFrom [] rest)) rest) :
    Alike (joinLines (current :: linesFrom [] rest)) (current ++ (ending ++ rest)) := by
  have feed : ∀ ending ∈ [['\n'], ['\r'], ['\r', '\n']], ∀ inside, seen inside ['\n'] = seen inside ending ∧
      hashedBy inside ['\n'] = hashedBy inside ending := by decide
  rw [joinLines_cons current _ (linesFrom_ne_nil [] rest)]
  exact (alike_trimRight current inline).append (Alike.append (feed ending ends) later)

/-- Line ends are made line feeds, and nothing that is seen is lost. -/
theorem alike_linesFrom (current cs : List Char) (single : ∀ c ∈ current, isLineEnd c = false)
    (unquoted : Unquoted cs) : Alike (joinLines (linesFrom current cs)) (current.reverse ++ cs) := by
  have inline : ∀ c ∈ current.reverse, isLineEnd c = false := fun c member => single c (List.mem_reverse.mp member)
  fun_induction linesFrom current cs with
  | case1 current =>
    have last : joinLines [current.reverse] = trimRight current.reverse := List.intercalate_singleton ..
    rw [List.append_nil, last]
    exact alike_trimRight _ inline
  | case2 current rest ih =>
    have later := ih (List.forall_mem_nil _) (fun c member => unquoted c (by simp [member])) (List.forall_mem_nil _)
    have both : ['\r', '\n'] ∈ [['\n'], ['\r'], ['\r', '\n']] := by decide
    exact alike_line inline both later
  | case3 current c rest _ ends ih =>
    have later := ih (List.forall_mem_nil _) (fun c member => unquoted c (by simp [member])) (List.forall_mem_nil _)
    have single : [c] ∈ [['\n'], ['\r'], ['\r', '\n']] := by simpa [isLineEnd] using ends
    exact alike_line inline single later
  | case4 current c rest _ _ quote _ _ _ ih =>
    have usual := unquoted c (List.mem_cons_self ..)
    rcases quote with rfl | rfl <;> exact absurd usual (by decide)
  | case5 current c rest _ _ quote _ ih =>
    have usual := unquoted c (List.mem_cons_self ..)
    rcases quote with rfl | rfl <;> exact absurd usual (by decide)
  | case6 current c rest _ ends _ ih =>
    have more : ∀ d ∈ c :: current, isLineEnd d = false := List.forall_mem_cons.mpr ⟨by simpa using ends, single⟩
    have found := ih more (fun d member => unquoted d (List.mem_cons_of_mem _ member))
      fun d member => more d (List.mem_reverse.mp member)
    rwa [List.reverse_cons, List.append_assoc, List.singleton_append] at found

theorem mem_of_mem_trimRight (cs : List Char) (c : Char) (member : c ∈ trimRight cs) : c ∈ cs := by
  obtain ⟨blanks, split, _⟩ := trimRight_append cs
  rw [split]
  exact List.mem_append_left _ member

/-- Lines hold what the text holds, except that every line end is a line feed. -/
theorem forall_joinLines {P : Char → Prop} (feed : P '\n') (current cs : List Char) (before : ∀ c ∈ current, P c)
    (unquoted : Unquoted cs) (usual : ∀ c ∈ cs, isLineEnd c = false → P c) :
    ∀ c ∈ joinLines (linesFrom current cs), P c := by
  have line {current : List Char} (before : ∀ c ∈ current, P c) : ∀ c ∈ trimRight current.reverse, P c :=
    fun c member => before c (List.mem_reverse.mp (mem_of_mem_trimRight _ c member))
  have cut {current rest : List Char} (before : ∀ c ∈ current, P c)
      (later : ∀ c ∈ joinLines (linesFrom [] rest), P c) :
      ∀ c ∈ joinLines (current.reverse :: linesFrom [] rest), P c := by
    rw [joinLines_cons _ _ (linesFrom_ne_nil [] rest)]
    exact List.forall_mem_append.mpr ⟨line before, List.forall_mem_cons.mpr ⟨feed, later⟩⟩
  fun_induction linesFrom current cs with
  | case1 current =>
    have last : joinLines [current.reverse] = trimRight current.reverse := List.intercalate_singleton ..
    rw [last]
    exact line before
  | case2 current rest ih =>
    exact cut before (ih (List.forall_mem_nil _) (fun c member => unquoted c (by simp [member]))
      fun c member => usual c (by simp [member]))
  | case3 current c rest _ ends ih =>
    exact cut before (ih (List.forall_mem_nil _) (fun c member => unquoted c (by simp [member]))
      fun c member => usual c (by simp [member]))
  | case4 current c rest _ _ quote _ _ _ ih =>
    have quiet := unquoted c (List.mem_cons_self ..)
    rcases quote with rfl | rfl <;> exact absurd quiet (by decide)
  | case5 current c rest _ _ quote _ ih =>
    have quiet := unquoted c (List.mem_cons_self ..)
    rcases quote with rfl | rfl <;> exact absurd quiet (by decide)
  | case6 current c rest _ ends _ ih =>
    exact ih (List.forall_mem_cons.mpr ⟨usual c (List.mem_cons_self ..) (by simpa using ends), before⟩)
      (fun d member => unquoted d (List.mem_cons_of_mem _ member))
      fun d member => usual d (List.mem_cons_of_mem _ member)

/-! Cutting and trimming. -/

theorem seen_to_feed (cs : List Char) (fed : '\r' ∉ cs) : seen true cs = seen false (cs.dropWhile (· != '\n')) := by
  induction cs with
  | nil => rfl
  | cons c rest ih =>
    rw [List.mem_cons, not_or] at fed
    by_cases feed : c = '\n'
    · subst feed
      rw [List.dropWhile_cons_of_neg (by decide)]
      rfl
    · have still : hashed true c = true := by simp [hashed, isLineEnd, feed, Ne.symm fed.1]
      have hidden : shown true c = [] := rfl
      rw [List.dropWhile_cons_of_pos (by simpa using feed), seen, hidden, still]
      exact ih fed.2

/-- What is left when comments are cut is what is seen outside them. -/
theorem visible_cutHashes (cs : List Char) (unquoted : Unquoted cs) (fed : '\r' ∉ cs) :
    visible (cutHashes cs) = seen false cs := by
  fun_induction cutHashes cs with
  | case1 => rfl
  | case2 c rest quote inside after closed ih | case3 c rest quote closed ih =>
    rw [unquoted c (List.mem_cons_self ..)] at quote
    contradiction
  | case4 rest quote ih =>
    have suffix := List.dropWhile_suffix (l := rest) (· != '\n')
    have hidden : shown false '#' = [] := rfl
    rw [seen, hidden, ih (fun c member => unquoted c (List.mem_cons_of_mem _ (suffix.subset member)))
      fun member => fed (List.mem_cons_of_mem _ (suffix.subset member))]
    exact (seen_to_feed rest fun member => fed (List.mem_cons_of_mem _ member)).symm
  | case5 c rest quote other ih =>
    have still : hashed false c = false := by simpa [hashed] using other
    rw [seen, still, shown_of_ne other, ← ih (fun d member => unquoted d (List.mem_cons_of_mem _ member))
      fun member => fed (List.mem_cons_of_mem _ member), ← visible_append, List.singleton_append]

theorem cutHashes_eq_self (cs : List Char) (unquoted : Unquoted cs) (free : '#' ∉ cs) : cutHashes cs = cs := by
  induction cs with
  | nil => rw [cutHashes]
  | cons c rest ih =>
    obtain ⟨here, later⟩ := List.forall_mem_cons.mp unquoted
    rw [List.mem_cons, not_or] at free
    rw [cutHashes, if_neg (by simp [here]), if_neg (Ne.symm free.1), ih later free.2]

theorem visible_of_blank (cs : List Char) (blank : ∀ c ∈ cs, isBlank c = true) : visible cs = [] := by
  rw [visible, List.filter_eq_nil_iff]
  intro c member
  simp [blank c member]

theorem trim_of_unseen {cs : List Char} (unseen : visible cs = []) : trim cs = [] := by
  have blank : ∀ c ∈ cs, isBlank c = true := fun c member => by simpa using List.filter_eq_nil_iff.mp unseen c member
  rw [trim, trimLeft, List.dropWhile_eq_nil_iff.mpr blank]
  rfl

theorem visible_trim (cs : List Char) : visible (trim cs) = visible cs := by
  obtain ⟨blanks, split, blank⟩ := trimRight_append (trimLeft cs)
  have right : visible (trim cs) = visible (trimLeft cs) := by
    conv_rhs => rw [split, visible_append, visible_of_blank blanks blank, List.append_nil]
    rfl
  have left : cs = cs.takeWhile isBlank ++ trimLeft cs := List.takeWhile_append_dropWhile.symm
  have gone := visible_of_blank (cs.takeWhile isBlank) fun c member => List.mem_takeWhile_imp member
  conv_rhs => rw [left, visible_append, gone, List.nil_append]
  exact right

end SqlSchema.Statement
