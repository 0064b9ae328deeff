import SqlSchema.Proofs.Reader.Similar

/-! Texts with every gap squeezed to one space. Texts that are the same once squeezed are similar, and tabs may be
expanded before. -/
namespace SqlSchema.Reader
open Text Cursor

/-- Whether a gap stands in front of what follows the text. -/
def gappedBy (gapped : Bool) (cs : List Char) : Bool := cs.foldl (fun _ c => isGap c) gapped

/-- What is left of a gap character. -/
def residue (gapped : Bool) : List Char := if gapped then [] else [' ']

/-- A text with one space in place of every gap, or with none where the gap has begun before. -/
def squeezed (gapped : Bool) : List Char → List Char
  | [] => []
  | c :: rest => if isGap c then residue gapped ++ squeezed true rest else c :: squeezed false rest

section
variable {gapped : Bool} {cs ds gap rest : List Char} {c : Char}

theorem squeezed_of_gap (blank : isGap c = true) : squeezed gapped (c :: rest) = residue gapped ++ squeezed true rest :=
  if_pos blank

theorem squeezed_of_visible (visible : isGap c = false) : squeezed gapped (c :: rest) = c :: squeezed false rest :=
  if_neg (by simp [visible])

/-- Text without gaps is kept. -/
theorem squeezed_visible (visible : ∀ c ∈ cs, isGap c = false) (filled : cs ≠ []) :
    squeezed gapped (cs ++ rest) = cs ++ squeezed false rest := by
  induction cs generalizing gapped with
  | nil => exact absurd rfl filled
  | cons c more ih =>
    obtain ⟨here, later⟩ := List.forall_mem_cons.mp visible
    rw [List.cons_append, squeezed_of_visible here, List.cons_append]
    cases more with
    | nil => rfl
    | cons d others => rw [ih later (List.cons_ne_nil d others)]

theorem gappedBy_append (front more : List Char) :
    gappedBy gapped (front ++ more) = gappedBy (gappedBy gapped front) more := List.foldl_append

theorem gappedBy_of_last (last : cs.getLast? = some c) : gappedBy gapped cs = isGap c := by
  obtain ⟨front, rfl⟩ := List.getLast?_eq_some_iff.mp last
  rw [gappedBy_append]
  rfl

theorem gappedBy_of_gap (blank : Gap gap) (start : gap = [] → gapped = true) : gappedBy gapped gap = true := by
  cases last : gap.getLast? with
  | none =>
    have none := List.getLast?_eq_none_iff.mp last
    rw [none]
    exact start none
  | some c => rw [gappedBy_of_last last, blank c (List.mem_of_getLast? last)]

theorem squeezed_append (front more : List Char) :
    squeezed gapped (front ++ more) = squeezed gapped front ++ squeezed (gappedBy gapped front) more := by
  induction front generalizing gapped with
  | nil => rfl
  | cons c front ih =>
    rw [List.cons_append]
    cases blank : isGap c with
    | true =>
      have on : gappedBy gapped (c :: front) = gappedBy true front := by rw [← blank]; rfl
      rw [squeezed_of_gap blank, squeezed_of_gap blank, ih, on, List.append_assoc]
    | false =>
      have on : gappedBy gapped (c :: front) = gappedBy false front := by rw [← blank]; rfl
      rw [squeezed_of_visible blank, squeezed_of_visible blank, ih, on, List.cons_append]

/-- Where a gap has begun, the rest of it leaves nothing. -/
theorem squeezed_gap (blank : Gap gap) : squeezed true (gap ++ rest) = squeezed true rest := by
  induction gap with
  | nil => rfl
  | cons c gap ih =>
    obtain ⟨here, later⟩ := List.forall_mem_cons.mp blank
    rw [List.cons_append, squeezed_of_gap here, ih later]
    rfl

theorem squeezed_gap_of_filled (blank : Gap gap) (filled : gap ≠ []) :
    squeezed gapped (gap ++ rest) = residue gapped ++ squeezed true rest := by
  obtain ⟨c, more, rfl⟩ := List.exists_cons_of_ne_nil filled
  obtain ⟨here, later⟩ := List.forall_mem_cons.mp blank
  rw [List.cons_append, squeezed_of_gap here, squeezed_gap later]

theorem squeezed_dropGap : squeezed false (cs.dropWhile isGap) = squeezed true cs := by
  have split := congrArg (squeezed true) (List.takeWhile_append_dropWhile (p := isGap) (l := cs))
  rw [squeezed_gap fun c member => List.mem_takeWhile_imp member] at split
  rw [← split]
  cases found : cs.dropWhile isGap with
  | nil => rfl
  | cons c rest =>
    have visible : isGap c = false := by
      have first := List.head?_dropWhile_not isGap cs
      simpa only [found, List.head?_cons] using first
    rw [squeezed_of_visible visible, squeezed_of_visible visible]

theorem gappedBy_squeezed : gappedBy gapped (squeezed gapped cs) = gappedBy gapped cs := by
  induction cs generalizing gapped with
  | nil => rfl
  | cons c rest ih =>
    cases blank : isGap c with
    | true =>
      have on : gappedBy gapped (c :: rest) = gappedBy true rest := by rw [← blank]; rfl
      have space : gappedBy gapped (residue gapped) = true := by cases gapped <;> rfl
      rw [squeezed_of_gap blank, gappedBy_append, space, ih, on]
    | false =>
      have on (more : List Char) : gappedBy gapped (c :: more) = gappedBy false more := by rw [← blank]; rfl
      rw [squeezed_of_visible blank, on, ih, on]

theorem gappedBy_congr (same : squeezed gapped cs = squeezed gapped ds) : gappedBy gapped cs = gappedBy gapped ds := by
  rw [← gappedBy_squeezed, same, gappedBy_squeezed]

theorem squeezed_congr {front front' more more' : List Char} (first : squeezed gapped front = squeezed gapped front')
    (second : squeezed (gappedBy gapped front') more = squeezed (gappedBy gapped front') more') :
    squeezed gapped (front ++ more) = squeezed gapped (front' ++ more') := by
  rw [squeezed_append, squeezed_append, first, gappedBy_congr first, second]

theorem mem_squeezed (visible : isGap c = false) : c ∈ squeezed gapped cs ↔ c ∈ cs := by
  induction cs generalizing gapped with
  | nil => rfl
  | cons d rest ih =>
    cases blank : isGap d with
    | true =>
      have other : c ≠ d := by
        rintro rfl
        rw [visible] at blank
        contradiction
      have absent : c ∉ residue gapped := by
        intro member
        have space : c = ' ' := by cases gapped <;> simp [residue] at member; exact member
        rw [space] at visible
        contradiction
      rw [squeezed_of_gap blank, List.mem_append, ih, List.mem_cons, or_iff_right absent, or_iff_right other]
    | false => rw [squeezed_of_visible blank, List.mem_cons, ih, List.mem_cons]

theorem head?_squeezed (cs : List Char) : (squeezed false cs).head?.map isGap = cs.head?.map isGap := by
  cases cs with
  | nil => rfl
  | cons c rest =>
    cases blank : isGap c with
    | true =>
      rw [squeezed_of_gap blank, List.head?_cons, Option.map_some, blank]
      rfl
    | false => rw [squeezed_of_visible blank, List.head?_cons, List.head?_cons]

theorem headGap_of_squeezed (same : squeezed false cs = squeezed false ds) :
    cs.head?.any isGap = ds.head?.any isGap := by
  have heads : cs.head?.map isGap = ds.head?.map isGap := by rw [← head?_squeezed, same, head?_squeezed]
  have told (o : Option Char) : o.any isGap = (o.map isGap).any id := by cases o <;> rfl
  rw [told, told, heads]

/-- Squeezing leaves what rules see of a text. -/
theorem similar_of_squeezed {d e : Dialect} (same : squeezed false cs = squeezed false ds)
    (usual : ∀ c ∈ cs, (Comparison.exact d e).Usual c) : Similar (.exact d e) cs ds := by
  induction size : cs.length using Nat.strong_induction_on generalizing cs ds with
  | _ n ih =>
    have heads : cs.head?.map isGap = ds.head?.map isGap := by rw [← head?_squeezed, same, head?_squeezed]
    cases cs with
    | nil =>
      cases ds with
      | nil => exact .nil
      | cons d ds => contradiction
    | cons c cs =>
      cases ds with
      | nil => contradiction
      | cons d ds =>
        have both : isGap c = isGap d := Option.some.inj heads
        rw [List.forall_mem_cons] at usual
        rw [List.length_cons] at size
        cases first : isGap c with
        | true =>
          have second := both.symm.trans first
          rw [squeezed_of_gap first, squeezed_of_gap second, List.append_cancel_left_eq, ← squeezed_dropGap,
            ← squeezed_dropGap] at same
          have shorter := (List.dropWhile_suffix (l := cs) isGap).length_le
          refine .gap first second (ih _ (by omega) same (fun c member => ?_) rfl)
          exact usual.2 c ((List.dropWhile_suffix isGap).subset member)
        | false =>
          rw [squeezed_of_visible first, squeezed_of_visible (both.symm.trans first)] at same
          obtain ⟨rfl, rest⟩ := List.cons.inj same
          exact .cons first usual.1 rfl (ih cs.length (by omega) rest usual.2 rfl)

theorem squeezed_of_filled (filled : Filled cs ds) : squeezed gapped ds = squeezed gapped cs := by
  induction filled generalizing gapped with
  | nil => rfl
  | char c _ ih =>
    cases blank : isGap c with
    | true => rw [squeezed_of_gap blank, squeezed_of_gap blank, ih]
    | false => rw [squeezed_of_visible blank, squeezed_of_visible blank, ih]
  | tab n _ ih =>
    have spaces : Gap (List.replicate (n + 1) ' ') := by
      intro c member
      rw [(List.mem_replicate.mp member).2]
      rfl
    have tab : isGap '\t' = true := rfl
    rw [squeezed_gap_of_filled spaces (by simp), squeezed_of_gap tab, ih]

theorem squeezed_expandTabs : squeezed gapped (expandTabs cs) = squeezed gapped cs :=
  squeezed_of_filled (filled_expandFrom 0 cs)

end

/-- What stands in front of the first gap is the same in texts that look alike. -/
theorem Similar.takeWhile_eq {d e : Dialect} {cs ds : List Char} (similar : Similar (.exact d e) cs ds)
    {p : Char → Bool} (visible : Visible p) : cs.takeWhile p = ds.takeWhile p := by
  obtain ⟨size, step⟩ := similar.takeWhile visible
  have taken (cs : List Char) : cs.take (cs.takeWhile p).length = cs.takeWhile p :=
    (List.prefix_iff_eq_take.mp (List.takeWhile_prefix p)).symm
  have same : (cs.take _).map id = (ds.take _).map id := step.taken
  rw [List.map_id, List.map_id] at same
  rw [← taken cs, same, size, taken ds]

end SqlSchema.Reader
