import SqlSchema.Proofs.Reader.Keyword
import SqlSchema.Proofs.Reader.Shaped
import SqlSchema.Proofs.Text.Lower

/-! Statements whose keyword runs on. The rules look for the keyword of an index with another boundary than for the
word that becomes part of an action, so there are texts that pass the one and are taken for the other. -/
namespace SqlSchema.Reader
open Text SqlSchema.Tree

/-- The text creates or replaces something, and what it creates is the word for an index run into a character that
touches keywords without being part of words. -/
def RunsOn (cs : List Char) : Prop :=
  ∃ gap created replaced c more, Opens gap "CREATE" cs created ∧
    (replaced = created ∨ ∃ either, Follows "OR" created either ∧ Follows "REPLACE" either replaced) ∧
    Follows "INDEX" replaced (c :: more) ∧ c ∈ straddling

namespace Rule

theorem reads_createOther (c last : Cursor) (s : SchemaStatement) :
    createOther.Reads c s last ↔
      ∃ created, (keyword "CREATE").Reads c () created ∧
        ∃ found replaced, (optional (keywords ["OR", "REPLACE"])).Reads created found replaced ∧
          (∀ name ∈ ["TABLE", "TEMPORARY", "UNIQUE", "INDEX"], (keyword name).Fails replaced) ∧
          ∃ kind named, word.Reads replaced kind named ∧
            (∃ text, (optional rest).Reads named text last) ∧
            { action := Action.create ++ " " ++ kind.toLower } = s := by
  simp only [createOther, reads_bind, reads_pure, reads_without, fails_choice, List.forall_mem_map]
  constructor
  · intro holds
    obtain ⟨_, created, head, found, replaced, option, _, _, ⟨failed, rfl⟩, holds⟩ := holds
    obtain ⟨kind, named, index, text, _, more, rfl, rfl⟩ := holds
    exact ⟨created, head, found, _, option, failed, kind, named, index, ⟨text, more⟩, rfl⟩
  · intro holds
    obtain ⟨created, head, found, replaced, option, failed, kind, named, index, ⟨text, more⟩, rfl⟩ := holds
    exact ⟨(), created, head, found, replaced, option, (), replaced, ⟨failed, rfl⟩, kind, named, index, text, last,
      more, rfl, rfl⟩

theorem capital_index : Capital "INDEX" := by decide

theorem follows_of_word (c named : Cursor) (kind : String) (clear : c.Clear)
    (ended : c.rest.head?.any touchesKeyword = false) (found : word.Reads c kind named) (small : kind.toLower = "index")
    (failed : (keyword "INDEX").Fails c) : ∃ d more, Follows "INDEX" c.rest (d :: more) ∧ d ∈ straddling := by
  obtain ⟨first, tail, split, _, rfl, rfl⟩ := (reads_word ..).mp found
  have whole : c.rest = c.rest.takeWhile Cursor.isGap ++
      (first :: tail.takeWhile isPlainWord ++ tail.dropWhile isPlainWord) := by
    rw [List.cons_append, List.takeWhile_append_dropWhile, ← split, Cursor.skipGap_rest,
      List.takeWhile_append_dropWhile]
  have alike : (first :: tail.takeWhile isPlainWord).map Char.toLower = "INDEX".toList.map Char.toLower := by
    have letters := congrArg String.toList small
    rw [toList_toLower, String.toList_ofList] at letters
    exact letters.trans (by decide)
  have opened : Opens (c.rest.takeWhile Cursor.isGap) "INDEX" c.rest (tail.dropWhile isPlainWord) :=
    ⟨fun g member => List.mem_takeWhile_imp member, _, whole, alike⟩
  cases touching : (tail.dropWhile isPlainWord).head?.any touchesKeyword with
  | false =>
    obtain ⟨after, reads, _⟩ := reads_keyword_of_opens c clear capital_index opened touching
    exact absurd failed reads.not_fails
  | true =>
    have other := List.head?_dropWhile_not isPlainWord tail
    cases last : tail.dropWhile isPlainWord with
    | nil => simp [last] at touching
    | cons d more =>
      rw [last] at opened touching other
      refine ⟨d, more, opened.follows capital_index ended, (mem_straddling_iff d).mpr ⟨touching, ?_⟩⟩
      simpa using other

theorem ne_nil_of_reads_word (c named : Cursor) (kind : String) (found : word.Reads c kind named) : c.rest ≠ [] := by
  obtain ⟨first, tail, split, _⟩ := (reads_word ..).mp found
  intro empty
  rw [Cursor.skipGap_rest, empty] at split
  contradiction

theorem opens_of_leading {name : String} (c after : Cursor) (u : Unit) (leading : name ∈ ["CREATE", "OR", "REPLACE"])
    (found : (keyword name).Reads c u after) (more : after.rest ≠ []) :
    ∃ gap, Opens gap name c.rest after.rest ∧ after.Clear ∧ after.rest.head?.any touchesKeyword = false := by
  have plain : ∀ name ∈ ["CREATE", "OR", "REPLACE"], Capital name ∧ 'I' ∉ name.toList ∧ 'S' ∉ name.toList := by
    decide
  obtain ⟨capital, usual⟩ := plain name leading
  exact opens_of_reads_keyword c after u capital usual found more

theorem runsOn_of_createOther (cs : List Char) (last : Cursor)
    (found : createOther.Reads (Cursor.start cs) { action := Action.createIndex } last) : RunsOn cs := by
  obtain ⟨created, head, found, replaced, option, failed, kind, named, index, _, same⟩ :=
    (reads_createOther ..).mp found
  have small : kind.toLower = "index" := by
    have action := congrArg SchemaStatement.action same
    exact (String.append_right_inj _).mp action
  have missing := failed "INDEX" (by simp)
  rcases (reads_optional ..).mp option with ⟨_, rfl, both⟩ | ⟨rfl, _, rfl⟩
  · obtain ⟨_, either, alternative, replace⟩ := (reads_bind (keyword "OR") (fun _ => keyword "REPLACE") ..).mp both
    have third := ne_nil_of_reads_word _ _ _ index
    have second := ne_nil_of_reads_keyword _ _ _ replace third
    have first := ne_nil_of_reads_keyword _ _ _ alternative second
    obtain ⟨gap, create, _, ended⟩ := opens_of_leading _ _ _ (by simp) head first
    obtain ⟨_, other, _, parted⟩ := opens_of_leading _ _ _ (by simp) alternative second
    obtain ⟨_, again, clear, apart⟩ := opens_of_leading _ _ _ (by simp) replace third
    obtain ⟨d, more, follows, straddles⟩ := follows_of_word _ _ _ clear apart index small missing
    exact ⟨gap, _, _, d, more, create,
      .inr ⟨_, other.follows (by decide) ended, again.follows (by decide) parted⟩, follows, straddles⟩
  · have here := (reads_skipGap word created _ _ rfl).mp index
    have absent := (fails_skipGap (keyword "INDEX") created rfl).mp missing
    obtain ⟨gap, create, clear, ended⟩ := opens_of_leading _ _ _ (by simp) head (ne_nil_of_reads_word _ _ _ here)
    obtain ⟨d, more, follows, straddles⟩ := follows_of_word _ _ _ clear ended here small absent
    exact ⟨gap, _, _, d, more, create, .inl rfl, follows, straddles⟩

theorem fails_of_follows (c : Cursor) (d : Char) (more : List Char) (follows : Follows "INDEX" c.rest (d :: more))
    (straddles : d ∈ straddling) : ∀ name ∈ ["TABLE", "TEMPORARY", "UNIQUE", "INDEX"], (keyword name).Fails c := by
  obtain ⟨gap, _, opened⟩ := follows
  have others : ∀ name ∈ ["TABLE", "TEMPORARY", "UNIQUE"], Capital name ∧ name.toList.head? ≠ "INDEX".toList.head? := by
    decide
  intro name member
  by_cases same : name = "INDEX"
  · subst same
    exact fails_keyword_of_touching c capital_index opened ((mem_straddling_iff d).mp straddles).1
  · have known := others name (by simpa [same] using member)
    exact fails_keyword_of_other c known.1 capital_index opened known.2

theorem word_of_follows (c : Cursor) (d : Char) (more : List Char) (follows : Follows "INDEX" c.rest (d :: more))
    (straddles : d ∈ straddling) :
    ∃ kind named, word.Reads c kind named ∧ kind.toLower = "index" ∧ named.rest = d :: more ∧
      (c.Fits → named.Fits) := by
  obtain ⟨gap, _, opened⟩ := follows
  have skipped := opened.skipGap c capital_index
  obtain ⟨_, spelled, split, alike⟩ := opened
  have letters := letters_of_alike "INDEX" capital_index spelled alike
  have visible : c.skipGap.rest = spelled ++ d :: more := by rw [skipped, Cursor.advance, split, List.drop_left]
  cases spelled with
  | nil => simp at alike
  | cons first tail =>
    have part : ∀ l ∈ tail, isPlainWord l = true := by
      intro l member
      simp [isPlainWord, Char.isAlphanum, letters l (List.mem_cons_of_mem _ member)]
    have ended : (d :: more).takeWhile isPlainWord = [] :=
      List.takeWhile_cons_of_neg (by simp [((mem_straddling_iff d).mp straddles).2])
    have whole : (tail ++ d :: more).takeWhile isPlainWord = tail := by
      rw [List.takeWhile_append_of_pos part, ended, List.append_nil]
    have start := (touches_of_letter first (letters first (List.mem_cons_self ..))).2.2
    refine ⟨_, _, (reads_word ..).mpr ⟨first, tail ++ d :: more, visible, start, rfl, rfl⟩, ?_, ?_, ?_⟩
    · rw [whole]
      apply String.toList_inj.mp
      rw [toList_toLower, String.toList_ofList, lower, alike]
      decide
    · rw [whole, Cursor.advance, visible, List.drop_left]
    · exact fun fits => Cursor.fits_advance _ _ (c.fits_skipGap fits)

theorem fails_of_keyword {β : Type} (optionalWord needed : String) (next : Option Unit → Rule β) (c created : Cursor)
    (head : (keyword "CREATE").Reads c () created) (absent : (keyword optionalWord).Fails created)
    (missing : (keyword needed).Fails created) :
    Fails (do
      keyword "CREATE"
      let found ← optional (keyword optionalWord)
      keyword needed
      next found) c := by
  have nothing : (optional (keyword optionalWord)).Reads created none created.skipGap :=
    (reads_optional ..).mpr (.inr ⟨rfl, absent, rfl⟩)
  have stuck := (fails_skipGap (keyword needed) created rfl).mpr missing
  refine (fails_bind ..).mpr (.inr ⟨(), created, head, (fails_bind ..).mpr (.inr ⟨none, _, nothing, ?_⟩)⟩)
  exact (fails_bind ..).mpr (.inl stuck)

/-- Between `CREATE` and the word for the index there is nothing, or an order to replace. -/
theorem replaced_of_between (c : Cursor) (replaced : List Char) (d : Char) (more : List Char) (clear : c.Clear)
    (between : replaced = c.rest ∨ ∃ either, Follows "OR" c.rest either ∧ Follows "REPLACE" either replaced)
    (follows : Follows "INDEX" replaced (d :: more)) (straddles : d ∈ straddling) :
    (∀ name ∈ ["TABLE", "TEMPORARY", "UNIQUE", "INDEX"], (keyword name).Fails c) ∧
      ∃ found spot, (optional (keywords ["OR", "REPLACE"])).Reads c found spot ∧
        (∀ name ∈ ["TABLE", "TEMPORARY", "UNIQUE", "INDEX"], (keyword name).Fails spot) ∧
        ∃ kind named, word.Reads spot kind named ∧ kind.toLower = "index" ∧ named.rest = d :: more ∧
          (c.Fits → named.Fits) := by
  rcases between with rfl | ⟨either, other, again⟩
  · have failed := fails_of_follows c d more follows straddles
    obtain ⟨kind, named, reads, rest⟩ := word_of_follows c d more follows straddles
    have absent : (keyword "OR").Fails c := by
      obtain ⟨gap, _, opened⟩ := follows
      exact fails_keyword_of_other c (by decide) capital_index opened (by decide)
    have nothing : (optional (keywords ["OR", "REPLACE"])).Reads c none c.skipGap :=
      (reads_optional ..).mpr (.inr ⟨rfl, (fails_bind (keyword "OR") _ c).mpr (.inl absent), rfl⟩)
    refine ⟨failed, none, c.skipGap, nothing, ?_, kind, named, (reads_skipGap word c _ _ rfl).mpr reads, rest⟩
    exact fun name member => (fails_skipGap (keyword name) c rfl).mpr (failed name member)
  · obtain ⟨gap, _, opened⟩ := other
    have names : ∀ name ∈ ["TABLE", "TEMPORARY", "UNIQUE", "INDEX"],
        Capital name ∧ name.toList.head? ≠ "OR".toList.head? := by decide
    obtain ⟨second, alternative, rfl, free⟩ := reads_keyword_of_opens c clear (by decide) opened again.ended
    obtain ⟨_, _, replacing⟩ := again
    obtain ⟨spot, replace, rfl, _⟩ := reads_keyword_of_opens second free (by decide) replacing follows.ended
    obtain ⟨kind, named, reads, small, rest, fits⟩ := word_of_follows spot d more follows straddles
    have both : (keywords ["OR", "REPLACE"]).Reads c () spot :=
      (reads_bind (keyword "OR") (fun _ => keyword "REPLACE") ..).mpr ⟨(), second, alternative, replace⟩
    refine ⟨fun name member => ?_, some (), spot, (reads_optional ..).mpr (.inl ⟨(), rfl, both⟩),
      fails_of_follows spot d more follows straddles, kind, named, reads, small, rest, fun inside => ?_⟩
    · exact fails_keyword_of_other c (names name member).1 (by decide) opened (names name member).2
    · exact fits (fits_of_reads_keyword _ _ _ replace (fits_of_reads_keyword _ _ _ alternative inside))

theorem rest_of_straddling (c : Cursor) (d : Char) (more : List Char) (split : c.rest = d :: more)
    (straddles : d ∈ straddling) (fits : c.Fits) :
    ∃ text last, (optional rest).Reads c text last ∧ ∃ ending, endOfText.Reads last () ending := by
  have plain : Cursor.isGap d = false ∧ isBlank d = false := by
    simp only [straddling, List.mem_cons, List.not_mem_nil, or_false] at straddles
    rcases straddles with rfl | rfl | rfl <;> decide
  have still : c.skipGap = c := by
    rw [c.skipGap_of_append [] (d :: more) split (by simp) plain.1, List.length_nil, c.advance_zero]
  have whole : rest.Reads c (String.ofList (d :: more)) (c.advance (d :: more).length) := by
    rw [rest, reads_recognised, still, split]
    exact ⟨_, if_neg (by simp [plain.2]), rfl⟩
  have empty : (c.advance (d :: more).length).rest = [] := by rw [Cursor.advance, split, List.drop_length]
  have ended := reads_endOfText_of_fits _ (c.fits_advance _ fits) empty
  exact ⟨_, _, (reads_optional ..).mpr (.inl ⟨_, rfl, whole⟩), _, ended⟩

theorem createOther_of_runsOn (d : Dialect) (cs : List Char) (run : RunsOn cs) :
    ∃ last, (statement d).Reads (Cursor.start cs) { action := Action.createIndex } last ∧
      ∃ ending, endOfText.Reads last () ending := by
  obtain ⟨gap, created, replaced, k, more, create, between, follows, straddles⟩ := run
  have parted : created.head?.any touchesKeyword = false := by
    rcases between with rfl | ⟨either, other, _⟩
    · exact follows.ended
    · exact other.ended
  obtain ⟨place, head, rfl, clear⟩ :=
    reads_keyword_of_opens (Cursor.start cs) (Cursor.clear_start cs) (by decide) create parted
  obtain ⟨failed, found, spot, option, missing, kind, named, reads, small, left, fits⟩ :=
    replaced_of_between place replaced k more clear between follows straddles
  have inside := fits (fits_of_reads_keyword _ _ _ head (Cursor.fits_start cs))
  obtain ⟨text, last, behind, ended⟩ := rest_of_straddling named k more left straddles inside
  have table : (createTable d).Fails (Cursor.start cs) :=
    fails_of_keyword "TEMPORARY" "TABLE" _ _ place head (failed _ (by simp)) (failed _ (by simp))
  have index : (createIndex d).Fails (Cursor.start cs) :=
    fails_of_keyword "UNIQUE" "INDEX" _ _ place head (failed _ (by simp)) (failed _ (by simp))
  have other : createOther.Reads (Cursor.start cs) { action := Action.createIndex } last := by
    refine (reads_createOther ..).mpr
      ⟨place, head, found, spot, option, missing, kind, named, reads, ⟨text, behind⟩, ?_⟩
    rw [small]
    rfl
  exact ⟨last, (reads_choice ..).mpr (.inr ⟨table, .inr ⟨index, .inl other⟩⟩), ended⟩

/-- The rules read a statement of the wrong shape exactly where a keyword runs on. -/
theorem readAll_misshapen_iff (d : Dialect) (cs : List Char) (s : SchemaStatement) :
    (statement d).readAll cs = .ok s ∧ ¬ s.Shaped ↔ RunsOn cs ∧ s = { action := Action.createIndex } := by
  rw [readAll_eq_ok]
  constructor
  · intro holds
    obtain ⟨⟨after, found, _⟩, misshapen⟩ := holds
    rcases shaped_or_createOther d _ _ s found with shaped | ⟨rfl, other⟩
    · exact absurd shaped misshapen
    · exact ⟨runsOn_of_createOther cs after other, rfl⟩
  · intro holds
    obtain ⟨run, rfl⟩ := holds
    exact ⟨createOther_of_runsOn d cs run, not_shaped_createIndex⟩

end Rule

end SqlSchema.Reader
