import SqlSchema.Proofs.Attempt
import SqlSchema.Proofs.Statement.Hashes
import SqlSchema.Proofs.Statement.Split
import SqlSchema.Proofs.Token.Scan

/-! What is left of a text without its comments: its own characters, and besides them only spaces and line ends. -/
namespace SqlSchema.Statement
open Text Token

theorem rest_of_leadingRun {tokens rest : List Token} {run : List Char} (found : leadingRun tokens = some (run, rest)) :
    rest = tokens.dropWhile inRun := by
  unfold leadingRun at found
  split at found
  · contradiction
  · split at found
    · split at found
      · contradiction
      · cases found
        rfl
    · contradiction

/-- What holds behind comments and behind white space holds behind all the comments that are dropped together. -/
theorem of_joinedRuns {Q : List Token → Prop} (comments : ∀ tokens, Q tokens → Q (tokens.dropWhile inRun))
    (spaces : ∀ tokens, Q tokens → Q (tokens.dropWhile Token.isSpace)) {tokens rest : List Token} {run : List Char}
    (found : joinedRuns tokens = some (run, rest)) (start : Q tokens) : Q rest := by
  fun_induction joinedRuns tokens generalizing run rest with
  | case1 => contradiction
  | case2 tokens text after first none ih =>
    cases found
    exact rest_of_leadingRun first ▸ comments tokens start
  | case3 tokens text after first more beyond joined ih =>
    cases found
    exact ih joined (spaces after (rest_of_leadingRun first ▸ comments tokens start))

theorem suffix_of_joinedRuns {tokens rest : List Token} {run : List Char}
    (found : joinedRuns tokens = some (run, rest)) : rest <:+ tokens :=
  have drop (p : Token → Bool) (left : List Token) (behind : left <:+ tokens) : left.dropWhile p <:+ tokens :=
    (List.dropWhile_suffix p).trans behind
  of_joinedRuns (drop inRun) (drop Token.isSpace) found List.suffix_rfl

theorem mem_remains {run : List Char} {c : Char} (member : c ∈ remains run) : c = ' ' ∨ isLineEnd c = true := by
  unfold remains at member
  split at member
  · exact .inl (List.mem_singleton.mp member)
  · rw [List.mem_reverse] at member
    exact .inr (List.mem_takeWhile_imp member)

theorem isBlank_of_mem_remains {run : List Char} (c : Char) (member : c ∈ remains run) : isBlank c = true := by
  rcases mem_remains member with rfl | ended
  · decide
  · exact isBlank_of_isLineEnd c ended

section Kept
variable {P : Char → Prop}

theorem forall_linesFrom (current cs : List Char) (before : ∀ c ∈ current, P c) (kept : ∀ c ∈ cs, P c) :
    ∀ line ∈ linesFrom current cs, ∀ c ∈ line, P c := by
  have line {current : List Char} (before : ∀ c ∈ current, P c) : ∀ c ∈ current.reverse, P c :=
    fun c member => before c (List.mem_reverse.mp member)
  fun_induction linesFrom current cs with
  | case1 current => exact List.forall_mem_singleton.mpr (line before)
  | case2 current rest ih =>
    exact List.forall_mem_cons.mpr ⟨line before, ih (List.forall_mem_nil _) fun c member => kept c (by simp [member])⟩
  | case3 current c rest _ ends ih =>
    exact List.forall_mem_cons.mpr ⟨line before, ih (List.forall_mem_nil _) fun c member => kept c (by simp [member])⟩
  | case4 current c rest _ _ _ inside after closed ih =>
    rw [Quoting.close_append _ _ _ _ closed, List.forall_mem_cons, List.forall_mem_append, List.forall_mem_cons] at kept
    obtain ⟨here, within, _, later⟩ := kept
    have quoted : ∀ d ∈ (c :: inside).reverse, P d := line (List.forall_mem_cons.mpr ⟨here, within⟩)
    exact ih (List.forall_mem_append.mpr ⟨List.forall_mem_cons.mpr ⟨here, quoted⟩, before⟩) later
  | case5 current c rest _ _ _ _ ih =>
    obtain ⟨here, later⟩ := List.forall_mem_cons.mp kept
    exact ih (List.forall_mem_cons.mpr ⟨here, before⟩) later
  | case6 current c rest _ _ _ ih =>
    obtain ⟨here, later⟩ := List.forall_mem_cons.mp kept
    exact ih (List.forall_mem_cons.mpr ⟨here, before⟩) later

theorem forall_tidyLines (feed : P '\n') (cs : List Char) (kept : ∀ c ∈ cs, P c) : ∀ c ∈ tidyLines cs, P c := by
  have joined (lines : List (List Char)) (each : ∀ line ∈ lines, ∀ c ∈ line, P c) : ∀ c ∈ joinLines lines, P c := by
    induction lines with
    | nil => exact List.forall_mem_nil _
    | cons first more ih =>
      obtain ⟨here, later⟩ := List.forall_mem_cons.mp each
      have trimmed : ∀ c ∈ trimRight first, P c := fun c member => here c (mem_of_mem_trimRight _ c member)
      by_cases last : more = []
      · subst last
        rwa [joinLines, List.map_singleton, List.intercalate_singleton]
      · rw [joinLines_cons _ _ last]
        exact List.forall_mem_append.mpr ⟨trimmed, List.forall_mem_cons.mpr ⟨feed, ih later⟩⟩
  exact joined _ (forall_linesFrom [] cs (List.forall_mem_nil _) kept)

variable (space : P ' ') (ends : ∀ c, isLineEnd c = true → P c)
include space ends

theorem forall_pieces (before : Option (List Char)) (tokens : List Token) (kept : ∀ t ∈ tokens, ∀ c ∈ t.text, P c) :
    ∀ piece ∈ piecesFrom before tokens, ∀ c ∈ piece, P c := by
  have left (run : List Char) : ∀ c ∈ remains run, P c := by
    intro c member
    rcases mem_remains member with rfl | ended
    · exact space
    · exact ends c ended
  have later {t : Token} {rest : List Token} (kept : ∀ u ∈ t :: rest, ∀ c ∈ u.text, P c) :
      ∀ u ∈ rest, ∀ c ∈ u.text, P c :=
    (List.forall_mem_cons.mp kept).2
  fun_induction piecesFrom before tokens with
  | case1 => exact List.forall_mem_nil _
  | case2 before t rest comment run after joined drops ih =>
    exact ih fun u member => kept u ((suffix_of_joinedRuns joined).subset member)
  | case3 before t rest comment run after joined drops ih =>
    exact List.forall_mem_cons.mpr ⟨left run, ih fun u member => kept u ((suffix_of_joinedRuns joined).subset member)⟩
  | case4 before t rest comment joined drops ih => exact ih (later kept)
  | case5 before t rest comment joined drops ih => exact List.forall_mem_cons.mpr ⟨left t.text, ih (later kept)⟩
  | case6 before t rest uncommented ih =>
    exact List.forall_mem_cons.mpr ⟨kept t (List.mem_cons_self ..), ih (later kept)⟩

theorem forall_plain (tokens : List Token) (kept : ∀ t ∈ tokens, ∀ c ∈ t.text, P c) : ∀ c ∈ plain tokens, P c := by
  refine forall_tidyLines (ends '\n' (by decide)) _ fun c member => ?_
  obtain ⟨piece, among, inside⟩ := List.mem_flatten.mp member
  exact forall_pieces space ends none tokens kept piece among c inside

omit space ends in
theorem forall_cutHashes (cs : List Char) (kept : ∀ c ∈ cs, P c) : ∀ c ∈ cutHashes cs, P c := by
  fun_induction cutHashes cs with
  | case1 => exact List.forall_mem_nil _
  | case2 c rest quote inside after closed ih =>
    have split : rest = inside ++ c :: after := Quoting.close_append _ _ _ _ closed
    rw [split, List.forall_mem_cons, List.forall_mem_append, List.forall_mem_cons] at kept
    obtain ⟨here, within, _, later⟩ := kept
    have behind := List.forall_mem_cons.mpr ⟨here, ih later⟩
    exact List.forall_mem_cons.mpr ⟨here, List.forall_mem_append.mpr ⟨within, behind⟩⟩
  | case3 c rest quote closed ih =>
    obtain ⟨here, later⟩ := List.forall_mem_cons.mp kept
    exact List.forall_mem_cons.mpr ⟨here, ih later⟩
  | case4 rest quote ih =>
    exact ih fun c member => kept c (List.mem_cons_of_mem _ ((List.dropWhile_suffix _).subset member))
  | case5 c rest quote other ih =>
    obtain ⟨here, later⟩ := List.forall_mem_cons.mp kept
    exact List.forall_mem_cons.mpr ⟨here, ih later⟩

/-- Nothing new is left but spaces and line ends. -/
theorem forall_plainText {cs text : List Char} (found : plainText cs = .ok text) (kept : ∀ c ∈ cs, P c) :
    ∀ c ∈ text, P c := by
  unfold plainText at found
  dsimp only at found
  split at found
  · contradiction
  · cases found
    intro c member
    obtain ⟨piece, among, inside⟩ := List.mem_flatMap.mp member
    refine forall_plain space ends piece (fun t part d letter => kept d ?_) c inside
    rw [← textOf_scan cs]
    exact List.mem_flatMap.mpr ⟨t, (infix_of_mem_split among).subset part, letter⟩

theorem forall_strip {d : Dialect} {cs plain : List Char} (stripped : strip d cs = .ok plain) (kept : ∀ c ∈ cs, P c) :
    ∀ c ∈ plain, P c := by
  obtain ⟨whole, found, rfl⟩ := (Attempt.map_eq_ok ..).mp stripped
  have statements := forall_plainText space ends found kept
  intro c member
  have inside := mem_of_mem_trim _ c member
  split at inside
  · exact forall_cutHashes _ statements c inside
  · exact statements c inside

end Kept
end SqlSchema.Statement
