import SqlSchema.Proofs.Text.Upper

/-! Characters with several capitals. A text is shorter than its upper case only if one of them stands in it, and the
upper case tells where. Of all such capitals few are letters of ASCII. -/
namespace SqlSchema.Text

/-- The capitals in ASCII that one character has together. -/
def joinedCapitals : List String := ["FF", "FI", "FL", "FFI", "FFL", "SS", "ST"]

theorem exists_joined {entry : Nat × List Nat} (member : entry ∈ longCapitals)
    (ascii : ∀ c ∈ entry.2.map Char.ofNat, c.toNat < 128) :
    ∃ joined ∈ joinedCapitals, entry.2.map Char.ofNat = joined.toList :=
  (by decide +kernel : ∀ entry ∈ longCapitals, (∀ c ∈ entry.2.map Char.ofNat, c.toNat < 128) →
    ∃ joined ∈ joinedCapitals, entry.2.map Char.ofNat = joined.toList) entry member ascii

theorem capitals_single_or_long (c : Char) :
    (capitals c).length = 1 ∨ ∃ entry ∈ longCapitals, capitals c = entry.2.map Char.ofNat := by
  unfold capitals
  split
  next => exact .inl rfl
  next =>
    split
    next codes found =>
      obtain ⟨_, _, split, _⟩ := List.lookup_eq_some_iff.mp found
      have member : (c.toNat, codes) ∈ longCapitals := split ▸ List.mem_append_right _ (List.mem_cons_self ..)
      exact .inr ⟨_, member, rfl⟩
    next => split <;> exact .inl rfl

theorem exists_long {cs : List Char} (shorter : cs.length < (upper cs).length) :
    ∃ front c back, cs = front ++ c :: back ∧ ∃ entry ∈ longCapitals, capitals c = entry.2.map Char.ofNat := by
  induction cs with
  | nil => exact absurd shorter (Nat.lt_irrefl 0)
  | cons c rest ih =>
    rcases capitals_single_or_long c with single | long
    · have split : upper (c :: rest) = capitals c ++ upper rest := List.flatMap_cons
      rw [split, List.length_append, single, List.length_cons] at shorter
      obtain ⟨front, d, back, rfl, long⟩ := ih (by omega)
      exact ⟨c :: front, d, back, rfl, long⟩
    · exact ⟨[], c, rest, rfl, long⟩

section Words
variable {word cs : List Char} (ascii : ∀ c ∈ word, c.toNat < 128) (spelled : upper cs = word)
include ascii spelled

/-- Without a place for joined capitals, a word in any spelling is as long as in capitals. -/
theorem length_of_unjoined (apart : ∀ joined ∈ joinedCapitals, ¬ joined.toList <:+: word) : cs.length = word.length := by
  subst spelled
  refine (length_upper fun entry member inside => ?_).symm
  obtain ⟨joined, listed, same⟩ := exists_joined member fun c among => ascii c (inside.subset among)
  exact apart joined listed (same ▸ inside)

/-- A shorter spelling has one character for joined capitals. -/
theorem split_of_short (short : cs.length < word.length) :
    ∃ front c back, cs = front ++ c :: back ∧ ∃ joined ∈ joinedCapitals, (upper front).length < word.length ∧
      upper front = word.take (upper front).length ∧
      joined.toList = (word.drop (upper front).length).take joined.toList.length ∧
      upper back = word.drop ((upper front).length + joined.toList.length) := by
  subst spelled
  obtain ⟨front, c, back, rfl, entry, member, long⟩ := exists_long short
  have split : upper (front ++ c :: back) = upper front ++ (entry.2.map Char.ofNat ++ upper back) := by
    rw [upper_append, ← long]
    rfl
  rw [split] at ascii ⊢
  obtain ⟨joined, listed, same⟩ := exists_joined member fun c among =>
    ascii c (List.mem_append_right _ (List.mem_append_left _ among))
  have some : 0 < joined.toList.length := by
    rw [← same, ← long]
    exact List.length_pos_iff.mpr (capitals_ne_nil c)
  rw [same]
  refine ⟨front, c, back, rfl, joined, listed, ?_, ?_, ?_, ?_⟩
  · rw [List.length_append, List.length_append]
    omega
  · rw [List.take_left]
  · rw [List.drop_left, List.take_left]
  · rw [← List.drop_drop, List.drop_left, List.drop_left]

end Words
end SqlSchema.Text
