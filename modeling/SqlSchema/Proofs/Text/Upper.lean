import SqlSchema.Text.Blank
import SqlSchema.Text.Upper

/-! Capitals of single characters. Beyond ASCII only two letters have a capital inside it: the dotless i and the
long s. -/
namespace SqlSchema.Text

theorem forall_ascii {P : Char → Prop} (all : ∀ n < 128, P (Char.ofNat n)) (c : Char) (ascii : c.toNat < 128) :
    P c := by
  have found := all c.toNat ascii
  rwa [Char.ofNat_toNat] at found

theorem capitals_of_ascii (c : Char) (ascii : c.toNat < 128) : capitals c = [c.toUpper] := if_pos ascii

theorem isAlpha_iff (c : Char) : c.isAlpha = true ↔ c.isUpper = true ∨ c.isLower = true := Bool.or_eq_true_iff

theorem toNat_le_of_isUpper {c : Char} (high : c.isUpper = true) : c.toNat ≤ 90 := (of_decide_eq_true high).2

theorem toNat_le_of_isLower {c : Char} (small : c.isLower = true) : c.toNat ≤ 122 :=
  of_decide_eq_true (Bool.and_eq_true_iff.mp small).2

theorem ascii_of_isAlpha (c : Char) (letter : c.isAlpha = true) : c.toNat < 128 := by
  rcases (isAlpha_iff c).mp letter with high | small
  · exact Nat.lt_of_le_of_lt (toNat_le_of_isUpper high) (by decide)
  · exact Nat.lt_of_le_of_lt (toNat_le_of_isLower small) (by decide)

theorem upper_of_isUpper (cs : List Char) (high : ∀ c ∈ cs, c.isUpper = true) : upper cs = cs := by
  induction cs with
  | nil => rfl
  | cons c rest ih =>
    rw [List.forall_mem_cons] at high
    have ascii := ascii_of_isAlpha c ((isAlpha_iff c).mpr (.inl high.1))
    have single : capitals c = [c] :=
      forall_ascii (P := fun c => c.isUpper = true → capitals c = [c]) (by decide) c ascii high.1
    have more : upper rest = rest := ih high.2
    rw [upper, List.flatMap_cons, single, ← upper, more, List.singleton_append]

theorem capitals_ne_nil (c : Char) : capitals c ≠ [] := by
  have filled : ∀ entry ∈ longCapitals, entry.2 ≠ [] := by decide
  unfold capitals
  split
  · simp
  · split
    next codes found =>
      obtain ⟨before, after, split, _⟩ := List.lookup_eq_some_iff.mp found
      have member : (c.toNat, codes) ∈ longCapitals := by simp [split]
      simpa using filled _ member
    next =>
      split <;> simp

theorem prefix_upper {front cs : List Char} (begun : front <+: cs) : upper front <+: upper cs := by
  obtain ⟨more, rfl⟩ := begun
  exact ⟨upper more, (upper_append front more).symm⟩

theorem ascii_of_toLower (c : Char) (ascii : c.toLower.toNat < 128) : c.toNat < 128 := by
  unfold Char.toLower at ascii
  split at ascii
  next capital =>
    have last : c.toNat ≤ 90 := capital.2
    omega
  next => exact ascii

theorem isAlpha_of_toLower (c letter : Char) (alike : c.toLower = letter.toLower) (alpha : letter.isAlpha = true) :
    c.isAlpha = true := by
  have small : letter.toLower.isAlpha = true :=
    forall_ascii (P := fun c => c.isAlpha = true → c.toLower.isAlpha = true) (by decide) letter
      (ascii_of_isAlpha letter alpha) alpha
  rw [← alike] at small
  have inside := ascii_of_toLower c (ascii_of_isAlpha _ small)
  exact forall_ascii (P := fun c => c.toLower.isAlpha = true → c.isAlpha = true) (by decide) c inside small

theorem capitals_of_toLower (c : Char) (ascii : c.toLower.toNat < 128) : capitals c = [c.toLower.toUpper] := by
  have inside := ascii_of_toLower c ascii
  have same : c.toLower.toUpper = c.toUpper :=
    forall_ascii (P := fun c => c.toLower.toUpper = c.toUpper) (by decide) c inside
  rw [capitals_of_ascii c inside, same]

theorem upper_of_ascii (cs : List Char) (ascii : ∀ c ∈ cs.map Char.toLower, c.toNat < 128) :
    upper cs = (cs.map Char.toLower).map Char.toUpper := by
  induction cs with
  | nil => rfl
  | cons c rest ih =>
    rw [List.map_cons, List.forall_mem_cons] at ascii
    rw [← List.singleton_append, upper_append, ih ascii.2, upper, List.flatMap_singleton, capitals_of_toLower c ascii.1]
    rfl

theorem toNat_of_covers {run : CaseRun} (member : run ∈ caseRuns) {n : Nat} (covered : run.covers n = true) :
    run.first ≤ n ∧ n ≤ run.last ∧ ((Char.ofNat ((n : Int) + run.distance).toNat).toNat : Int) = n + run.distance := by
  have valid : ∀ run ∈ caseRuns, 0 ≤ run.first + run.distance ∧ (run.last + run.distance < 0xd800 ∨
      0xe000 ≤ run.first + run.distance ∧ run.last + run.distance < 0x110000) := by decide +kernel
  simp only [CaseRun.covers, Bool.and_eq_true, decide_eq_true_eq] at covered
  obtain ⟨⟨lower, upper⟩, _⟩ := covered
  have bounds := valid run member
  have legal : ((n : Int) + run.distance).toNat.isValidChar := by
    simp only [Nat.isValidChar]
    omega
  have number : (Char.ofNat ((n : Int) + run.distance).toNat).toNat = ((n : Int) + run.distance).toNat := by
    rw [Char.ofNat, dif_pos legal]
    rfl
  exact ⟨lower, upper, by omega⟩

/-- Letters beyond ASCII whose one capital lies in ASCII. -/
theorem foreign_of_capital (c capital : Char) (foreign : 128 ≤ c.toNat) (single : capitals c = [capital])
    (ascii : capital.toNat < 128) : c = 'ı' ∨ c = 'ſ' := by
  have long : ∀ entry ∈ longCapitals, entry.2.length ≠ 1 := by decide
  have far : ∀ run ∈ caseRuns, 128 ≤ run.first + run.distance ∨ run.first = run.last ∧
      (run.first = 'ı'.toNat ∨ run.first = 'ſ'.toNat) := by decide +kernel
  rw [capitals, if_neg (Nat.not_lt.mpr foreign)] at single
  split at single
  next codes found =>
    obtain ⟨before, after, split, _⟩ := List.lookup_eq_some_iff.mp found
    have member : (c.toNat, codes) ∈ longCapitals := by simp [split]
    have one : codes.length = 1 := by simpa using congrArg List.length single
    exact absurd one (long _ member)
  next =>
    split at single
    next run found =>
      have member := List.mem_of_find?_eq_some found
      have covered := List.find?_some found
      obtain ⟨lower, upper, number⟩ := toNat_of_covers member covered
      rw [(List.cons.inj single).1] at number
      rcases far run member with outside | ⟨only, dotless | long⟩
      · omega
      · exact .inl (Char.toNat_inj.mp (by omega))
      · exact .inr (Char.toNat_inj.mp (by omega))
    next =>
      cases single
      omega

/-- Whether a letter can be seen does not change with its case. -/
theorem isBlank_of_mem_capitals {c capital : Char} (member : capital ∈ capitals c) : isBlank capital = isBlank c := by
  have long : ∀ entry ∈ longCapitals, inRanges blankRanges entry.1 = false ∧
      ∀ code ∈ entry.2, isBlank (Char.ofNat code) = false := by decide
  have apart : ∀ run ∈ caseRuns, ∀ range ∈ blankRanges, (run.last < range.1 ∨ range.2 < run.first) ∧
      (run.last + run.distance < range.1 ∨ range.2 < run.first + run.distance) := by decide +kernel
  by_cases inside : c.toNat < 128
  · rw [capitals_of_ascii c inside, List.mem_singleton] at member
    rw [member]
    exact forall_ascii (P := fun c => isBlank c.toUpper = isBlank c) (by decide) c inside
  · rw [capitals, if_neg inside] at member
    split at member
    next codes found =>
      obtain ⟨before, after, split, _⟩ := List.lookup_eq_some_iff.mp found
      obtain ⟨small, capitals⟩ := long (c.toNat, codes) (by simp [split])
      obtain ⟨code, listed, rfl⟩ := List.mem_map.mp member
      rw [capitals code listed, isBlank, small]
    next =>
      split at member
      next run found =>
        have listed := List.mem_of_find?_eq_some found
        have covered := List.find?_some found
        obtain ⟨lower, upper, number⟩ := toNat_of_covers listed covered
        have visible (d : Char) (outside : ∀ range ∈ blankRanges, d.toNat < range.1 ∨ range.2 < d.toNat) :
            isBlank d = false := by
          refine Bool.eq_false_iff.mpr fun blank => ?_
          obtain ⟨range, among, bounds⟩ := (inRanges_iff ..).mp blank
          have either := outside range among
          omega
        rw [List.mem_singleton.mp member, visible _ fun range among => ?_, visible _ fun range among => ?_]
        · have := (apart run listed range among).1
          omega
        · have := (apart run listed range among).2
          omega
      next => rw [List.mem_singleton.mp member]

section Casing
variable {p : Char → Bool} (steady : ∀ c, ∀ capital ∈ capitals c, p capital = p c)
include steady

theorem takeWhile_upper (cs : List Char) : (upper cs).takeWhile p = upper (cs.takeWhile p) := by
  induction cs with
  | nil => rfl
  | cons c rest ih =>
    rw [upper, List.flatMap_cons, ← upper]
    cases holds : p c with
    | true =>
      rw [List.takeWhile_append_of_pos fun k member => (steady c k member).trans holds, ih,
        List.takeWhile_cons_of_pos holds, upper, upper, List.flatMap_cons]
    | false =>
      obtain ⟨capital, more, first⟩ := List.exists_cons_of_ne_nil (capitals_ne_nil c)
      have other : ¬ p capital = true := by rw [steady c capital (first ▸ List.mem_cons_self ..), holds]; decide
      rw [first, List.cons_append, List.takeWhile_cons_of_neg other, List.takeWhile_cons_of_neg (by simp [holds])]
      rfl

theorem dropWhile_upper (cs : List Char) : (upper cs).dropWhile p = upper (cs.dropWhile p) := by
  have whole := congrArg upper (List.takeWhile_append_dropWhile (p := p) (l := cs))
  rw [upper_append, ← takeWhile_upper steady] at whole
  exact (List.append_cancel_left (whole.trans List.takeWhile_append_dropWhile.symm)).symm

end Casing

theorem firstWord_upper (cs : List Char) : firstWord (upper cs) = upper (firstWord cs) := by
  have steady (c : Char) : ∀ capital ∈ capitals c, isBlank capital = isBlank c := fun _ => isBlank_of_mem_capitals
  rw [firstWord, trimLeft, dropWhile_upper steady, takeWhile_upper fun c k member => by rw [steady c k member]]
  rfl

theorem capitals_dotless : capitals 'ı' = ['I'] := by decide

theorem capitals_long : capitals 'ſ' = ['S'] := by decide

/-- What a letter is the capital of can be seen. -/
theorem not_isBlank_of_capital (c letter : Char) (head : (capitals c).head? = some letter)
    (alpha : letter.isAlpha = true) : isBlank c = false := by
  rw [← isBlank_of_mem_capitals (List.mem_of_head? head)]
  exact forall_ascii (P := fun c => c.isAlpha = true → isBlank c = false) (by decide) letter
    (ascii_of_isAlpha letter alpha) alpha

theorem toLower_of_capitals (c capital : Char) (single : capitals c = [capital]) (ascii : capital.toNat < 128)
    (usual : capital ≠ 'I' ∧ capital ≠ 'S') : c.toLower = capital.toLower := by
  by_cases inside : c.toNat < 128
  · rw [capitals_of_ascii c inside] at single
    rw [← (List.cons.inj single).1]
    exact forall_ascii (P := fun c => c.toLower = c.toUpper.toLower) (by decide) c inside
  · rcases foreign_of_capital c capital (Nat.not_lt.mp inside) single ascii with rfl | rfl
    · exact absurd (List.cons.inj (single.symm.trans capitals_dotless)).1 usual.1
    · exact absurd (List.cons.inj (single.symm.trans capitals_long)).1 usual.2

theorem head?_upper_take (cs : List Char) (n : Nat) (positive : 0 < n) :
    (upper (cs.take n)).head? = (upper cs).head? := by
  obtain ⟨m, rfl⟩ := Nat.exists_eq_succ_of_ne_zero (Nat.pos_iff_ne_zero.mp positive)
  cases cs with
  | nil => rfl
  | cons c rest =>
    obtain ⟨capital, others, found⟩ := List.exists_cons_of_ne_nil (capitals_ne_nil c)
    simp only [List.take_succ_cons, upper, List.flatMap_cons, found, List.cons_append, List.head?_cons]

theorem length_le_upper (cs : List Char) : cs.length ≤ (upper cs).length := by
  induction cs with
  | nil => exact Nat.le_refl 0
  | cons c rest ih =>
    have filled := List.length_pos_iff.mpr (capitals_ne_nil c)
    have longer : (upper (c :: rest)).length = (capitals c).length + (upper rest).length := by
      simp [upper]
    rw [longer, List.length_cons]
    omega

/-- Without a place for capitals that stand for one letter together, upper case is as long as the text. -/
theorem length_upper {cs : List Char} (short : ∀ entry ∈ longCapitals, ¬ entry.2.map Char.ofNat <:+: upper cs) :
    (upper cs).length = cs.length := by
  induction cs with
  | nil => rfl
  | cons c rest ih =>
    have split : upper (c :: rest) = capitals c ++ upper rest := List.flatMap_cons
    rw [split] at short
    have single : (capitals c).length = 1 := by
      unfold capitals at short ⊢
      split
      next => rfl
      next foreign =>
        rw [if_neg foreign] at short
        split
        next codes found =>
          obtain ⟨_, _, whole, _⟩ := List.lookup_eq_some_iff.mp found
          rw [found] at short
          have member : (c.toNat, codes) ∈ longCapitals := whole ▸ List.mem_append_right _ (List.mem_cons_self ..)
          exact absurd (List.prefix_append _ _).isInfix (short _ member)
        next => split <;> rfl
    rw [split, List.length_append, single, List.length_cons, ih fun entry member inside => ?_, Nat.add_comm]
    exact short entry member (inside.trans (List.suffix_append _ _).isInfix)

/-- A text as long as its upper case has one capital for each character. -/
theorem map_toLower_of_upper (cs word : List Char) (same : upper cs = word) (size : cs.length = word.length)
    (usual : ∀ c ∈ word, c.toNat < 128 ∧ c ≠ 'I' ∧ c ≠ 'S') : cs.map Char.toLower = word.map Char.toLower := by
  induction cs generalizing word with
  | nil =>
    rw [List.length_nil, eq_comm, List.length_eq_zero_iff] at size
    rw [size]
  | cons c rest ih =>
    have split : upper (c :: rest) = capitals c ++ upper rest := by simp [upper]
    have filled := List.length_pos_iff.mpr (capitals_ne_nil c)
    have short := length_le_upper rest
    have total := congrArg List.length (split.symm.trans same)
    rw [List.length_append, ← size, List.length_cons] at total
    obtain ⟨capital, single⟩ := List.length_eq_one_iff.mp (show (capitals c).length = 1 by omega)
    rw [split, single, List.singleton_append] at same
    subst same
    rw [List.forall_mem_cons] at usual
    rw [List.map_cons, List.map_cons, toLower_of_capitals c capital single usual.1.1 usual.1.2,
      ih (upper rest) rfl (by simpa using size) usual.2]

end SqlSchema.Text
