import SqlSchema.Text.Blank

/-! Texts between quotes: where a quote that was opened is closed. A doubled quote stays inside as long as a
closing quote is left behind it; otherwise the first of the two closes. -/
namespace SqlSchema.Text

/-- What a backslash does between quotes. -/
inductive Escape where
  /-- It is an ordinary character. -/
  | nothing
  /-- It protects a quote, as long as a closing quote is left behind it. -/
  | quote
  /-- It protects any character. -/
  | any
  /-- It protects any character but a line feed; before a line feed the quote stays open for good. -/
  | inLine
deriving DecidableEq, Repr

/-- A way of quoting: the quote, the part of the backslash, and whether line ends may stand inside. -/
structure Quoting where
  mark : Char
  escape : Escape := .nothing
  oneLine : Bool := false
deriving DecidableEq, Repr

/-- Splits what follows an opening quote into the enclosed text and the rest behind the closing quote. -/
def Quoting.close (q : Quoting) : List Char → Option (List Char × List Char)
  | [] => none
  | [c] => if c = q.mark then some ([], []) else none
  | c :: d :: rest =>
    if c = q.mark then
      if d = q.mark then
        match q.close rest with
        | some (inside, after) => some (c :: d :: inside, after)
        | none => some ([], d :: rest)
      else some ([], d :: rest)
    else if q.oneLine && isLineEnd c then none
    else if c = '\\' && q.escape == .any then
      (q.close rest).map fun (inside, after) => (c :: d :: inside, after)
    else if c = '\\' && q.escape == .inLine then
      if d = '\n' then none
      else (q.close rest).map fun (inside, after) => (c :: d :: inside, after)
    else if c = '\\' && q.escape == .quote && d = q.mark then
      match q.close rest with
      | some (inside, after) => some (c :: d :: inside, after)
      | none => (q.close (d :: rest)).map fun (inside, after) => (c :: inside, after)
    else (q.close (d :: rest)).map fun (inside, after) => (c :: inside, after)

/-- Nothing is lost: the enclosed text, the closing quote and the rest make up the input. -/
theorem Quoting.close_append (q : Quoting) (cs inside after : List Char)
    (closed : q.close cs = some (inside, after)) : cs = inside ++ q.mark :: after := by
  fun_induction Quoting.close q cs generalizing inside after <;>
    simp_all [Option.map_eq_some_iff] <;> grind

theorem Quoting.close_shorter (q : Quoting) (cs inside after : List Char)
    (closed : q.close cs = some (inside, after)) : after.length < cs.length := by
  rw [q.close_append cs inside after closed]
  simp
  omega

def undouble (mark : Char) : List Char → List Char
  | c :: d :: rest =>
    if c = mark ∧ d = mark then mark :: undouble mark rest else c :: undouble mark (d :: rest)
  | short => short

def double (mark : Char) (cs : List Char) : List Char :=
  cs.flatMap fun c => if c = mark then [c, c] else [c]

theorem undouble_double (mark : Char) (cs : List Char) : undouble mark (double mark cs) = cs := by
  induction cs with
  | nil => rfl
  | cons c rest ih =>
    by_cases same : c = mark
    · subst same
      simp_all [double, undouble]
    · match rest, ih with
      | [], _ => simp [double, undouble, same]
      | d :: rest, ih =>
        by_cases next : d = mark <;> simp_all [double, undouble]

end SqlSchema.Text
