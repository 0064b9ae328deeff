import SqlSchema.Proofs.Reader.Bounds
import SqlSchema.Proofs.Reader.Rounds
import SqlSchema.Proofs.Text.Ligature

/-! Rules that get on. What such a rule reads leaves less of the text, and leads to a place whose position counts the
characters in front of it. Only behind a keyword the position can be one too large, if the text ends there and one
character stands for two letters of the word. -/
namespace SqlSchema.Reader
open Text

/-! Places. -/

/-- The text is the word in either case, with one character for two of its letters. -/
def Drawn (word : String) (cs : List Char) : Prop := upper cs = upper word.toList ∧ cs.length + 1 = word.length

def EndsDrawn (words : List String) (cs : List Char) : Prop := ∃ word ∈ words, ∃ tail, tail <:+ cs ∧ Drawn word tail

/-- The position counts the characters in front of the place. -/
structure Counted (cs : List Char) (c : Cursor) : Prop where
  inside : Inside cs c
  exact : c.position + c.rest.length = cs.length

/-- The place lies one character behind the text, which ends with one of the words. -/
structure Overshot (words : List String) (cs : List Char) (c : Cursor) : Prop where
  inside : Inside cs c
  drawn : EndsDrawn words cs
  ended : c.rest = []
  behind : c.position = cs.length + 1

def Settled (words : List String) (cs : List Char) (c : Cursor) : Prop := Counted cs c ∨ Overshot words cs c

/-- Places in the text that a gap behind them does not change. -/
structure Steady (cs : List Char) (J : Cursor → Prop) : Prop where
  inside : ∀ c, J c → Inside cs c
  skipGap : ∀ c, J c → J c.skipGap

variable {cs : List Char} {c : Cursor}

/-- Where there is something left to read, positions are right. -/
theorem Inside.advance_counted {n : Nat} (inside : Inside cs c) (positive : 0 < n) (bound : n ≤ c.rest.length) :
    Counted cs (c.advance n) := by
  refine ⟨inside.advance positive bound, ?_⟩
  rcases inside.2.2 with here | ⟨empty, _⟩
  · simp only [Cursor.advance, List.length_drop]
    omega
  · rw [empty, List.length_nil] at bound
    omega

theorem Counted.skipGap (counted : Counted cs c) : Counted cs c.skipGap := by
  rcases Nat.eq_zero_or_pos (c.rest.takeWhile Cursor.isGap).length with none | some
  · rw [Cursor.skipGap, none, Cursor.advance_zero]
    exact counted
  · exact counted.inside.advance_counted some (List.takeWhile_prefix _).length_le

theorem steady_counted (cs : List Char) : Steady cs (Counted cs) where
  inside _ counted := counted.inside
  skipGap _ counted := counted.skipGap

theorem Settled.mono {words more : List String} (settled : Settled words cs c) (all : words ⊆ more) : Settled more cs c :=
  settled.imp_right fun overshot =>
    { overshot with drawn := overshot.drawn.imp fun _ found => found.imp_left fun member => all member }

theorem steady_settled (words : List String) (cs : List Char) : Steady cs (Settled words cs) where
  inside _ settled := settled.elim (·.inside) (·.inside)
  skipGap c settled := by
    rcases settled with counted | overshot
    · exact .inl counted.skipGap
    · have still : c.skipGap = c := by
        rw [Cursor.skipGap, overshot.ended]
        exact c.advance_zero
      exact .inr (still.symm ▸ overshot)

namespace Rule
variable {α β : Type} {J K : Cursor → Prop} {r : Rule α}

theorem origin_of_steady (steady : Steady cs J) (r : Rule α) (here : J c) : J (r.origin c) := by
  unfold origin
  split
  · exact steady.skipGap c here
  · exact here

/-! Ways of making a rule from others. -/

/-- What the rule reads leaves less of the text. From within the text it leads to a place as described. -/
structure Moves (cs : List Char) (J : Cursor → Prop) (r : Rule α) : Prop where
  shorter : r.Shortens
  leads : ∀ c a after, Inside cs c → r.Reads c a after → J after

/-- The rule may read nothing. From a place as described it leads to another. -/
structure Stays (J : Cursor → Prop) (r : Rule α) : Prop where
  bounded : ∀ c a after, r.Reads c a after → after.rest.length ≤ c.rest.length
  leads : ∀ c a after, J c → r.Reads c a after → J after

theorem preserved_bound (n : Nat) : Preserved (fun c => c.rest.length ≤ n) fun _ => True where
  position _ _ := trivial
  size _ _ := trivial
  advance c m bound _ _ := (List.drop_suffix m c.rest).length_le.trans bound
  keyword word _ c after bound reads := by
    obtain ⟨_, _, _, rfl⟩ := (reads_keyword ..).mp reads
    exact (List.drop_suffix ..).length_le.trans (c.skipGap_le.trans bound)
  failure _ _ _ _ _ _ := trivial

theorem Composed.stays (composed : r.Composed) (cs : List Char) : Stays (Inside cs) r where
  bounded c a after reads := (composed.preserves (preserved_bound _) c le_rfl).1 a after reads
  leads c a after inside reads := (composed.preserves (preserved_inside cs) c inside).1 a after reads

theorem stays_pure (a : α) : Stays J (pure a : Rule α) where
  bounded _ _ _ reads := ((reads_pure ..).mp reads).2 ▸ le_rfl
  leads _ _ _ here reads := ((reads_pure ..).mp reads).2 ▸ here

theorem Stays.bind {next : α → Rule β} (first : Stays J r) (second : ∀ a, Stays J (next a)) : Stays J (r >>= next) where
  bounded c b last reads := by
    obtain ⟨a, after, head, tail⟩ := (reads_bind ..).mp reads
    exact ((second a).bounded after b last tail).trans (first.bounded c a after head)
  leads c b last here reads := by
    obtain ⟨a, after, head, tail⟩ := (reads_bind ..).mp reads
    exact (second a).leads after b last (first.leads c a after here head) tail

namespace Moves

theorem mono (moves : Moves cs J r) (weaker : ∀ c, J c → K c) : Moves cs K r where
  shorter := moves.shorter
  leads c a after inside reads := weaker after (moves.leads c a after inside reads)

theorem stays (moves : Moves cs J r) (steady : Steady cs J) : Stays J r where
  bounded c a after reads := (moves.shorter c a after reads).le
  leads c a after here reads := moves.leads c a after (steady.inside c here) reads

/-- What comes last settles where the whole ends. -/
theorem after {next : α → Rule β} (first : r.Composed) (second : ∀ a, Moves cs J (next a)) : Moves cs J (r >>= next) where
  shorter c b last reads := by
    obtain ⟨a, middle, head, tail⟩ := (reads_bind ..).mp reads
    exact Nat.lt_of_lt_of_le ((second a).shorter middle b last tail) ((first.stays cs).bounded c a middle head)
  leads c b last inside reads := by
    obtain ⟨a, middle, head, tail⟩ := (reads_bind ..).mp reads
    exact (second a).leads middle b last ((first.stays cs).leads c a middle inside head) tail

theorem before {next : α → Rule β} (first : Moves cs J r) (second : ∀ a, Stays J (next a)) : Moves cs J (r >>= next) where
  shorter c b last reads := by
    obtain ⟨a, middle, head, tail⟩ := (reads_bind ..).mp reads
    exact Nat.lt_of_le_of_lt ((second a).bounded middle b last tail) (first.shorter c a middle head)
  leads c b last inside reads := by
    obtain ⟨a, middle, head, tail⟩ := (reads_bind ..).mp reads
    exact (second a).leads middle b last (first.leads c a middle inside head) tail

theorem choice (name : Shape) {rules : List (Rule α)} (each : ∀ r ∈ rules, Moves cs J r) :
    Moves cs J (Rule.choice name rules) where
  shorter c a after reads := by
    obtain ⟨r, member, found⟩ := ((reads_choice ..).mp reads).exists_mem
    exact (each r member).shorter c a after found
  leads c a after inside reads := by
    obtain ⟨r, member, found⟩ := ((reads_choice ..).mp reads).exists_mem
    exact (each r member).leads c a after inside found

theorem optional (moves : Moves cs J r) (steady : Steady cs J) : Stays J (Rule.optional r) where
  bounded c found after reads := by
    rcases (reads_optional ..).mp reads with ⟨a, _, head⟩ | ⟨_, _, rfl⟩
    · exact (moves.shorter c a after head).le
    · exact r.origin_le c
  leads c found after here reads := by
    rcases (reads_optional ..).mp reads with ⟨a, _, head⟩ | ⟨_, _, rfl⟩
    · exact moves.leads c a after (steady.inside c here) head
    · exact origin_of_steady steady r here

theorem many (moves : Moves cs J r) (steady : Steady cs J) : Stays J (Rule.many r) where
  bounded c all after reads := by
    have same : repeatFrom r ((Rule.many r).origin c) = (all, after) := Except.ok.inj reads
    have last := forall_repeatFrom (fun d a after bound found => (moves.shorter d a after found).le.trans bound)
      _ ((Rule.many r).origin_le c)
    rwa [same] at last
  leads c all after here reads := by
    have same : repeatFrom r ((Rule.many r).origin c) = (all, after) := Except.ok.inj reads
    have last := forall_repeatFrom (fun d a after here found => moves.leads d a after (steady.inside d here) found)
      _ (origin_of_steady steady (Rule.many r) here)
    rwa [same] at last

end Moves

/-! The smallest rules. -/

theorem moves_of_advance (reads : ∀ c a after, r.Reads c a after →
    ∃ size, 0 < size ∧ size ≤ c.skipGap.rest.length ∧ after = c.skipGap.advance size) : Moves cs (Counted cs) r where
  shorter c a after found := by
    obtain ⟨size, positive, bound, rfl⟩ := reads c a after found
    have some : c.skipGap.rest ≠ [] := List.length_pos_iff.mp (by omega)
    exact Nat.lt_of_lt_of_le (c.skipGap.advance_shorter size positive some) c.skipGap_le
  leads c a after inside found := by
    obtain ⟨size, positive, bound, rfl⟩ := reads c a after found
    exact inside.skipGap.advance_counted positive bound

theorem moves_mark (sign : Char) : Moves cs (Counted cs) (mark sign) := by
  refine moves_of_advance fun c u after reads => ?_
  obtain ⟨rest, split, rfl⟩ := (reads_mark ..).mp reads
  exact ⟨1, Nat.one_pos, by simp [split], rfl⟩

theorem moves_quoted (q : Quoting) : Moves cs (Counted cs) (quoted q) :=
  moves_of_advance fun _ _ _ reads => advance_of_reads_quoted reads

theorem moves_recognised (name : Shape) {recognise : List Char → Option (α × Nat)} (bounded : Bounded recognise) :
    Moves cs (Counted cs) (recognised name recognise) := by
  refine moves_of_advance fun c a after reads => ?_
  obtain ⟨size, found, rfl⟩ := (reads_recognised ..).mp reads
  obtain ⟨positive, bound⟩ := bounded _ a size found
  exact ⟨size, positive, bound, rfl⟩

/-- The keywords with letters for which one character can stand. -/
def drawable : List String := ["CONSTRAINT", "CURRENT_TIMESTAMP", "EXISTS", "RESTRICT", "ZEROFILL", "timestamp"]

theorem ascii_of_vocabulary {word : String} (known : word ∈ vocabulary) :
    (upper word.toList).length = word.length ∧ ∀ c ∈ upper word.toList, c.toNat < 128 :=
  (by decide +kernel : ∀ word ∈ vocabulary, (upper word.toList).length = word.length ∧
    ∀ c ∈ upper word.toList, c.toNat < 128) word known

/-- All other keywords have as many characters as letters, however they are written. -/
theorem length_of_spelled {word : String} (known : word ∈ vocabulary) (firm : word ∉ drawable) {spelled : List Char}
    (same : upper spelled = upper word.toList) : spelled.length = word.length := by
  have apart : ∀ word ∈ vocabulary, word ∉ drawable →
      ∀ joined ∈ joinedCapitals, ¬ joined.toList <:+: upper word.toList := by decide +kernel
  obtain ⟨size, ascii⟩ := ascii_of_vocabulary known
  rw [length_of_unjoined ascii same (apart word known firm), size]

theorem drawn_of_short {word : String} (known : word ∈ vocabulary) (short : word ∈ drawable) {spelled : List Char}
    (same : upper spelled = upper word.toList) (fewer : spelled.length < word.length) : Drawn word spelled := by
  -- There is one place for two letters, and none in front of it or behind it.
  have places : ∀ word ∈ drawable, ∀ joined ∈ joinedCapitals, ∀ n < word.length,
      joined.toList = ((upper word.toList).drop n).take joined.toList.length →
        joined.toList.length = 2 ∧ n + 2 ≤ word.length ∧
          (∀ other ∈ joinedCapitals, ¬ other.toList <:+: (upper word.toList).take n) ∧
          ∀ other ∈ joinedCapitals, ¬ other.toList <:+: (upper word.toList).drop (n + 2) := by decide +kernel
  obtain ⟨size, ascii⟩ := ascii_of_vocabulary known
  obtain ⟨front, c, back, rfl, joined, listed, inside, before, here, behind⟩ :=
    split_of_short ascii same (size.symm ▸ fewer)
  obtain ⟨two, fits, unbroken, unjoined⟩ := places word short joined listed _ (size ▸ inside) here
  rw [two] at behind
  have first := length_of_unjoined (fun c member => ascii c (List.mem_of_mem_take member)) before unbroken
  have last := length_of_unjoined (fun c member => ascii c (List.mem_of_mem_drop member)) behind unjoined
  refine ⟨same, ?_⟩
  rw [List.length_take, size] at first
  rw [List.length_drop, size] at last
  rw [List.length_append, List.length_cons]
  omega

theorem moves_keyword {word : String} (known : word ∈ vocabulary) (firm : word ∉ drawable) :
    Moves cs (Counted cs) (keyword word) := by
  refine moves_of_advance fun c u after reads => ?_
  obtain ⟨spelled, _, _, rfl⟩ := (reads_keyword ..).mp reads
  have size := length_of_spelled known firm spelled
  rw [List.length_take] at size
  exact ⟨word.length, length_pos_of_vocabulary known, by omega, rfl⟩

theorem ne_nil_of_spelled {word : String} (known : word ∈ vocabulary) {rest : List Char}
    (spelled : upper (rest.take word.length) = upper word.toList) : rest ≠ [] := by
  obtain ⟨first, head, _⟩ := visible_of_keyword known spelled
  exact List.ne_nil_of_mem (List.mem_of_head? head)

theorem moves_drawable {word : String} (known : word ∈ vocabulary) (short : word ∈ drawable) :
    Moves cs (Settled [word] cs) (keyword word) where
  shorter c u after reads := by
    obtain ⟨spelled, _, _, rfl⟩ := (reads_keyword ..).mp reads
    have less := c.skipGap.advance_shorter _ (length_pos_of_vocabulary known) (ne_nil_of_spelled known spelled)
    exact Nat.lt_of_lt_of_le less c.skipGap_le
  leads c u after inside reads := by
    obtain ⟨spelled, _, _, rfl⟩ := (reads_keyword ..).mp reads
    have here := inside.skipGap
    rcases Nat.lt_or_ge c.skipGap.rest.length word.length with fewer | enough
    · have last := here.advance_keyword known spelled
      have exact := here.2.2.resolve_right fun none => ne_nil_of_spelled known spelled none.1
      rw [List.take_of_length_le fewer.le] at spelled
      have drawn := drawn_of_short known short spelled fewer
      refine .inr ⟨last, ⟨word, List.mem_singleton_self word, _, here.2.1, drawn⟩, List.drop_eq_nil_of_le fewer.le, ?_⟩
      calc c.skipGap.position + word.length
        _ = c.skipGap.position + c.skipGap.rest.length + 1 := by rw [← drawn.2, Nat.add_assoc]
        _ = cs.length + 1 := by rw [exact]
    · exact .inl (here.advance_counted (length_pos_of_vocabulary known) enough)

/-- The last keyword tells where several of them end. -/
theorem moves_keywords {words : List String} {last : String} (ends : words.getLast? = some last)
    (known : ∀ word ∈ words, word ∈ vocabulary) (firm : last ∉ drawable) : Moves cs (Counted cs) (keywords words) := by
  fun_induction keywords words with
  | case1 => contradiction
  | case2 word =>
    cases ends
    exact moves_keyword (known word (List.mem_cons_self ..)) firm
  | case3 word more filled ih =>
    rw [List.forall_mem_cons] at known
    refine .after (.keyword word known.1) fun _ => ih ?_ known.2
    rwa [List.getLast?_cons_of_ne_nil filled] at ends

end Rule
end SqlSchema.Reader
