import SqlSchema.Proofs.Statement.Commented
import SqlSchema.Proofs.Statement.Hidden
import SqlSchema.Proofs.Statement.Visible

/-! Texts of comments and white space only. Nothing is left of them, unless a comment is a hint, or one after a number
sign, which tokens do not know, is taken for something else. -/
namespace SqlSchema.Statement
open Text Token

/-- A comment, without its marks. -/
inductive Remark where
  | hash (text : List Char)
  | dashes (text : List Char)
  | block (text : List Char)

namespace Remark

def chars : Remark → List Char
  | .hash text => '#' :: text
  | .dashes text => '-' :: '-' :: text
  | .block text => '/' :: '*' :: (text ++ ['*', '/'])

/-- A comment of the dialect, over where the rest begins and no sooner. -/
def Complete (d : Dialect) (rest : List Char) : Remark → Prop
  | .hash text => d = .mysql ∧ (∀ c ∈ text, isLineEnd c = false) ∧ ∀ c, rest.head? = some c → isLineEnd c = true
  | .dashes text => (∀ c ∈ text, isLineEnd c = false) ∧ ∀ c, rest.head? = some c → isLineEnd c = true
  | .block text => ¬ ['*', '/'] <:+: text

/-- No hint; and after a number sign tokens find a comment of theirs, or nothing that goes on behind the line. -/
def Plain : Remark → Prop
  | .hash text => (∃ more, text = ' ' :: more ∧ more.head? ≠ some '+') ∨
      (∀ c ∈ text, c ∉ enclosing) ∧ ¬ ['/', '*'] <:+: text
  | .dashes text | .block text => text.head? ≠ some '+'

end Remark

/-- A text of white space and of complete comments with the property. -/
inductive Remarks (d : Dialect) (P : Remark → Prop) : List Char → Prop
  | nil : Remarks d P []
  | blank {c rest} (blank : isBlank c = true) (more : Remarks d P rest) : Remarks d P (c :: rest)
  | remark {r rest} (holds : P r) (complete : r.Complete d rest) (more : Remarks d P rest) : Remarks d P (r.chars ++ rest)

section Remarks
variable {d : Dialect} {P : Remark → Prop}

theorem Remark.head_chars (r : Remark) : ∃ c more, r.chars = c :: more ∧ c ∈ ['#', '-', '/'] := by
  cases r <;> exact ⟨_, _, rfl, by decide⟩

theorem Remarks.of_blank {c : Char} {rest : List Char} (blank : isBlank c = true) (remarks : Remarks d P (c :: rest)) :
    Remarks d P rest := by
  generalize whole : c :: rest = text at remarks
  cases remarks with
  | nil => contradiction
  | blank _ more =>
    cases whole
    exact more
  | @remark r rest _ _ _ =>
    obtain ⟨opener, more, split, among⟩ := r.head_chars
    rw [split, List.cons_append] at whole
    cases whole
    have solid : ∀ c ∈ ['#', '-', '/'], isBlank c = false := by decide
    rw [solid c among] at blank
    contradiction

theorem Remarks.trimLeft {cs : List Char} (remarks : Remarks d P cs) : Remarks d P (trimLeft cs) := by
  induction cs with
  | nil => exact remarks
  | cons c rest ih =>
    cases blank : isBlank c with
    | true =>
      rw [Text.trimLeft, List.dropWhile_cons_of_pos blank]
      exact ih (remarks.of_blank blank)
    | false => rwa [Text.trimLeft, List.dropWhile_cons_of_neg (by simp [blank])]

theorem head?_ne_of_append {cs more : List Char} {x : Char} (other : (cs ++ more).head? ≠ some x) : cs.head? ≠ some x := by
  intro first
  rw [List.head?_append, first] at other
  exact other rfl

/-- White space at the end is part of the last comment, or stands behind it. -/
theorem Remark.cut {r : Remark} {cs : List Char} {b : Char} (blank : isBlank b = true) (split : r.chars = cs ++ [b])
    (plain : r.Plain) (complete : r.Complete d []) : ∃ s : Remark, cs = s.chars ∧ s.Plain ∧ s.Complete d [] := by
  have behind (marks : List Char) {text : List Char} (split : marks ++ text = cs ++ [b])
      (solid : ∀ c, marks.getLast? = some c → isBlank c = false) :
      ∃ front, text = front ++ [b] ∧ cs = marks ++ front := by
    rcases List.eq_nil_or_concat' text with rfl | ⟨front, c, rfl⟩
    · have last := congrArg List.getLast? split
      rw [List.append_nil, List.getLast?_concat] at last
      rw [solid b last] at blank
      contradiction
    · rw [← List.append_assoc] at split
      obtain ⟨same, last⟩ := List.append_inj' split rfl
      exact ⟨front, by rw [last], same.symm⟩
  cases r with
  | hash text =>
    have solid : ∀ c, ['#'].getLast? = some c → isBlank c = false := by
      intro c last
      cases last
      decide
    obtain ⟨front, rfl, rfl⟩ := behind ['#'] split solid
    obtain ⟨dialect, oneLine, _⟩ := complete
    refine ⟨.hash front, rfl, ?_, dialect, (List.forall_mem_append.mp oneLine).1, nofun⟩
    rcases plain with ⟨more, spaced, usual⟩ | ⟨plain, closed⟩
    · cases front with
      | nil => exact .inr ⟨List.forall_mem_nil _, by decide⟩
      | cons c front =>
        cases spaced
        exact .inl ⟨front, rfl, head?_ne_of_append usual⟩
    · exact .inr ⟨(List.forall_mem_append.mp plain).1, fun inside => closed (inside.trans (List.prefix_append ..).isInfix)⟩
  | dashes text =>
    have solid : ∀ c, ['-', '-'].getLast? = some c → isBlank c = false := by
      intro c last
      cases last
      decide
    obtain ⟨front, rfl, rfl⟩ := behind ['-', '-'] split solid
    exact ⟨.dashes front, rfl, head?_ne_of_append plain, (List.forall_mem_append.mp complete.1).1, nofun⟩
  | block text =>
    have closing : (Remark.block text).chars.getLast? = some '/' := by
      simp [Remark.chars, List.getLast?_cons, List.getLast?_append]
    rw [split, List.getLast?_concat] at closing
    cases closing
    contradiction

theorem Remarks.cut {cs : List Char} {b : Char} (blank : isBlank b = true) (remarks : Remarks d Remark.Plain (cs ++ [b])) :
    Remarks d Remark.Plain cs := by
  generalize whole : cs ++ [b] = text at remarks
  induction remarks generalizing cs with
  | nil => simp at whole
  | @blank c rest white more ih =>
    cases cs with
    | nil => exact .nil
    | cons d cs =>
      cases whole
      exact .blank white (ih rfl)
  | @remark r rest holds complete more ih =>
    rcases List.eq_nil_or_concat' rest with rfl | ⟨front, c, rfl⟩
    · rw [List.append_nil] at whole
      obtain ⟨s, rfl, plain, full⟩ := Remark.cut blank whole.symm holds complete
      simpa using Remarks.remark plain full .nil
    · rw [← List.append_assoc] at whole
      obtain ⟨rfl, last⟩ := List.append_inj' whole rfl
      cases last
      refine .remark holds ?_ (ih rfl)
      have first (c : Char) (head : front.head? = some c) : (front ++ [b]).head? = some c := by
        rw [List.head?_append, head, Option.some_or]
      cases r with
      | hash text => exact ⟨complete.1, complete.2.1, fun c head => complete.2.2 c (first c head)⟩
      | dashes text => exact ⟨complete.1, fun c head => complete.2 c (first c head)⟩
      | block text => exact complete

theorem Remarks.trim {cs : List Char} (remarks : Remarks d Remark.Plain cs) : Remarks d Remark.Plain (trim cs) := by
  have right (cs blanks : List Char) (blank : ∀ c ∈ blanks, isBlank c = true)
      (remarks : Remarks d Remark.Plain (cs ++ blanks)) : Remarks d Remark.Plain cs := by
    induction blanks using List.reverseRecOn with
    | nil => rwa [List.append_nil] at remarks
    | append_singleton front b ih =>
      obtain ⟨first, last⟩ := List.forall_mem_append.mp blank
      rw [← List.append_assoc] at remarks
      exact ih first (remarks.cut (last b (List.mem_singleton_self b)))
  obtain ⟨blanks, split, blank⟩ := trimRight_append (Text.trimLeft cs)
  exact right _ blanks blank (split ▸ remarks.trimLeft)

/-- What follows the end of the line. -/
theorem Remarks.afterLine {rest : List Char} (ended : ∀ c, rest.head? = some c → isLineEnd c = true)
    (remarks : Remarks d P rest) : Remarks d P (afterLine rest) := by
  have blank (c : Char) (ends : isLineEnd c = true) : isBlank c = true := isBlank_of_isLineEnd c ends
  unfold Token.afterLine
  split
  · exact (remarks.of_blank (by decide)).of_blank (by decide)
  · exact remarks.of_blank (by decide)
  · exact remarks.of_blank (by decide)
  next c more _ turn feed =>
    have line := ended c rfl
    simp only [isLineEnd, Bool.or_eq_true, beq_iff_eq] at line
    rcases line with rfl | rfl
    · exact absurd rfl (feed)
    · exact absurd rfl (turn)
  · exact remarks

end Remarks

/-! MySQL. -/

theorem hidden_blank {c : Char} {rest : List Char} (blank : isBlank c = true) (hidden : Hidden false rest) :
    Hidden false (c :: rest) := by
  have usual : c ≠ '#' ∧ c ≠ '/' := by constructor <;> rintro rfl <;> contradiction
  have out : hashed false c = false := by simp [hashed, usual.1]
  exact .char (not_enclosing_of_blank blank) (by simp [shown, blank]) (fun same => absurd same usual.2) (out.symm ▸ hidden)

theorem hidden_lineEnd {c : Char} {rest : List Char} (ends : isLineEnd c = true) (hidden : Hidden false rest) :
    Hidden true (c :: rest) := by
  have blank : isBlank c = true := isBlank_of_isLineEnd c ends
  have usual : c ≠ '/' := by
    rintro rfl
    contradiction
  have out : hashed true c = false := by simp [hashed, ends]
  exact .char (not_enclosing_of_blank blank) rfl (fun same => absurd same usual) (out.symm ▸ hidden)

/-- The rest of a line behind a number sign. -/
theorem hidden_line {text rest : List Char} (plain : ∀ c ∈ text, c ∉ enclosing) (closed : ¬ ['/', '*'] <:+: text)
    (oneLine : ∀ c ∈ text, isLineEnd c = false) (ended : ∀ c, rest.head? = some c → isLineEnd c = true)
    (hidden : Hidden true rest) : Hidden true (text ++ rest) := by
  induction text with
  | nil => exact hidden
  | cons c text ih =>
    obtain ⟨here, plain⟩ := List.forall_mem_cons.mp plain
    obtain ⟨inline, oneLine⟩ := List.forall_mem_cons.mp oneLine
    have later := ih plain (fun inside => closed (inside.trans (List.suffix_cons ..).isInfix)) oneLine
    have on : hashed true c = true := by simp [hashed, inline]
    refine .char here rfl ?_ (on.symm ▸ later)
    rintro rfl first
    cases text with
    | nil => exact absurd (ended '*' first) (by decide)
    | cons d text =>
      cases first
      exact closed ⟨[], text, rfl⟩

theorem usual_append {text rest : List Char} (usual : text.head? ≠ some '+')
    (ended : ∀ c, rest.head? = some c → isLineEnd c = true) : (text ++ rest).head? ≠ some '+' := by
  cases text with
  | nil => exact fun first => absurd (ended '+' first) (by decide)
  | cons c text => exact usual

theorem usual_block {text : List Char} (usual : text.head? ≠ some '+') (rest : List Char) :
    (text ++ '*' :: '/' :: rest).head? ≠ some '+' := by
  cases text with
  | nil => simp
  | cons c text => exact usual

theorem Remarks.hidden {cs : List Char} (remarks : Remarks .mysql Remark.Plain cs) : Hidden false cs := by
  induction size : cs.length using Nat.strongRecOn generalizing cs with
  | ind n ih =>
    have line {text rest : List Char} (oneLine : ∀ c ∈ text, isLineEnd c = false)
        (ended : ∀ c, rest.head? = some c → isLineEnd c = true) (more : Remarks .mysql Remark.Plain rest)
        (shorter : rest.length < n) : Hidden false (Token.afterLine (text ++ rest)) := by
      rw [afterLine_append oneLine]
      have suffix := (suffix_afterLine rest).length_le
      exact ih _ (by omega) (more.afterLine ended) rfl
    cases remarks with
    | nil => exact .nil
    | @blank c rest blank more =>
      exact hidden_blank blank (ih _ (by simp [← size]) more rfl)
    | @remark r rest holds complete more =>
      rw [List.length_append] at size
      cases r with
      | hash text =>
        obtain ⟨_, oneLine, ended⟩ := complete
        rw [Remark.chars, List.length_cons] at size
        rcases holds with ⟨spaced, rfl, usual⟩ | ⟨plain, closed⟩
        · have opener : ['#', ' '] ∈ [['-', '-'], ['#', ' ']] := by decide
          have behind := line (List.forall_mem_cons.mp oneLine).2 ended more (by omega)
          have whole : Hidden false (['#', ' '] ++ (spaced ++ rest)) := .line opener (usual_append usual ended) behind
          exact whole
        · have behind : Hidden true rest := by
            cases rest with
            | nil => exact .nil
            | cons c rest =>
              have ends : isLineEnd c = true := ended c rfl
              rw [List.length_cons] at size
              exact hidden_lineEnd ends (ih _ (by omega) (more.of_blank (isBlank_of_isLineEnd c ends)) rfl)
          have whole := hidden_line plain closed oneLine ended behind
          exact .char (by decide) rfl (fun same => absurd same (by decide)) whole
      | dashes text =>
        obtain ⟨oneLine, ended⟩ := complete
        rw [Remark.chars, List.length_cons] at size
        have opener : ['-', '-'] ∈ [['-', '-'], ['#', ' ']] := by decide
        have behind := line oneLine ended more (by omega)
        have whole : Hidden false (['-', '-'] ++ (text ++ rest)) := .line opener (usual_append holds ended) behind
        exact whole
      | block text =>
        have usual := usual_block holds rest
        rw [Remark.chars, List.length_cons] at size
        have whole := Hidden.block (afterBlock_append text rest complete) usual (ih _ (by omega) more rfl)
        simpa [Remark.chars] using whole

/-! Postgres. -/

theorem leads_blank (before : Option Char) {c : Char} (blank : isBlank c = true) (rest : List Char) :
    Leads (·.isSpace = true) before (c :: rest) rest ∨
      ∃ more, rest = '\n' :: more ∧ Leads (·.isSpace = true) before (c :: rest) more := by
  have found := leading_of_blank before blank rest
  have whole (kind : Token.Kind) (white : isSpace ⟨kind, []⟩ = true) (taken after : List Char) (filled : taken ≠ [])
      (found : leading before (taken ++ after) = some (kind, after)) :
      Leads (·.isSpace = true) before (taken ++ after) after := leads_of_leading before filled found white
  unfold space at found
  split at found
  next more same =>
    cases same
    exact .inr ⟨more, rfl, whole .lineEnd rfl ['\r', '\n'] more (by simp) found⟩
  next d more _ same =>
    cases same
    left
    split at found
    · exact whole .lineEnd rfl [c] rest (by simp) found
    · exact whole .blank rfl [c] rest (by simp) found
  next none => contradiction

theorem Remarks.scanned {cs : List Char} (remarks : Remarks .postgres Remark.Plain cs) (before : Option Char) :
    ∀ t ∈ scanFrom before cs, t.isComment = true ∨ t.isSpace = true := by
  induction size : cs.length using Nat.strongRecOn generalizing cs before with
  | ind n ih =>
    have go {Q : Token → Prop} {after : List Char} (found : Leads Q before cs after)
        (known : ∀ t, Q t → t.isComment = true ∨ t.isSpace = true) (more : Remarks .postgres Remark.Plain after) :
        ∀ t ∈ scanFrom before cs, t.isComment = true ∨ t.isSpace = true := by
      obtain ⟨t, holds, parts, scanned⟩ := found
      rw [scanned]
      exact List.forall_mem_cons.mpr ⟨known t holds, ih _ (size ▸ parts.shorter) more _ rfl⟩
    cases remarks with
    | nil =>
      rw [scanFrom]
      exact List.forall_mem_nil _
    | @blank c rest blank more =>
      rcases leads_blank before blank rest with found | ⟨beyond, rfl, found⟩
      · exact go found (fun _ => .inr) more
      · exact go found (fun _ => .inr) (more.of_blank (by decide))
    | @remark r rest holds complete more =>
      cases r with
      | hash text => exact absurd complete.1 (by decide)
      | dashes text =>
        obtain ⟨oneLine, ended⟩ := complete
        have found : Leads (·.isComment = true) before (['-', '-'] ++ (text ++ rest)) (Token.afterLine (text ++ rest)) :=
          leads_line before (by decide) (usual_append holds ended)
        rw [afterLine_append oneLine] at found
        exact go found (fun _ => .inl) (more.afterLine ended)
      | block text =>
        have usual := usual_block holds rest
        have found := leads_block before (afterBlock_append text rest complete) usual
        have split : (Remark.block text).chars ++ rest = '/' :: '*' :: (text ++ '*' :: '/' :: rest) := by
          simp [Remark.chars]
        exact go (split ▸ found) (fun _ => .inl) more

/-! Both dialects. -/

/-- Nothing is left of plain comments, unless they are too deep. -/
theorem Remarks.strip_iff {d : Dialect} {cs : List Char} (remarks : Remarks d Remark.Plain cs) :
    strip d cs = .ok [] ↔ ¬ TooDeep cs := by
  constructor
  · intro stripped deep
    rw [(strip_eq_error_iff d cs _).mpr ⟨deep, rfl⟩] at stripped
    contradiction
  · intro shallow
    cases d with
    | mysql => exact remarks.hidden.strip shallow
    | postgres =>
      cases stripped : strip .postgres cs with
      | error i => exact absurd ((strip_eq_error_iff ..).mp stripped).1 shallow
      | ok plain =>
        obtain ⟨text, found, rfl⟩ := (Attempt.map_eq_ok ..).mp stripped
        have unseen : visible text = [] := by
          rw [visible_plainText found]
          refine visible_of_spaces (fun t member => ?_) fun t member => ?_
          · exact (taken_of_scanFrom none cs t (List.mem_filter.mp member).1).blank
          · obtain ⟨among, plain⟩ := List.mem_filter.mp member
            exact (remarks.scanned none t among).resolve_left (by simpa using plain)
        exact congrArg Except.ok (trim_of_unseen unseen)

end SqlSchema.Statement
