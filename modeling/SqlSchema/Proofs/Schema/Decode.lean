import SqlSchema.Proofs.Attempt
import SqlSchema.Schema.Decode

/-! Decoding as one walk. All that can go wrong in a table's definition goes wrong in one of its literals or key
options, and the first of these decides. -/
namespace SqlSchema
open Attempt

/-- A part of a definition that has to be decoded. -/
inductive Detail where
  | literal (l : Option Tree.Literal)
  | key (k : Tree.KeyOption)

def Detail.decode : Detail → Attempt Rejection Unit
  | .literal l => do let _ ← Value.ofLiteral? l
  | .key k => do let _ ← KeyOption.ofTree k

namespace Tree

def Column.details (c : Column) : List Detail :=
  [.literal c.type.default, .literal c.type.length, .literal c.type.scale, .key c.type.keyOption]

def Index.details (i : Index) : List Detail := i.columns.map (.literal ·.length)

/-- The details of a table, in the order in which they are decoded. -/
def TableBody.details (body : TableBody) : List Detail :=
  body.columns.flatMap Column.details ++ body.indexes.flatMap Index.details

end Tree

theorem breaks_column (c : Tree.Column) (b : Break Rejection) :
    (Column.ofTree c).Breaks b ↔ (c.details.mapM Detail.decode).Breaks b := by
  simp [Column.ofTree, Tree.Column.details, Detail.decode]

theorem breaks_index (i : Tree.Index) (b : Break Rejection) :
    (Index.ofTree i).Breaks b ↔ (i.details.mapM Detail.decode).Breaks b := by
  have each := breaks_mapM_flatMap IndexColumn.ofTree (fun c => [.literal c.length]) Detail.decode
    (by simp [IndexColumn.ofTree, Detail.decode]) i.columns b
  rw [← List.map_eq_flatMap] at each
  change _ ↔ Breaks ((i.columns.map fun c => Detail.literal c.length).mapM Detail.decode) b
  rw [← each]
  simp [Index.ofTree]

theorem breaks_table (name : String) (body : Tree.TableBody) (b : Break Rejection) :
    (Table.ofTree name body).Breaks b ↔ (body.details.mapM Detail.decode).Breaks b := by
  have columns := breaks_mapM_flatMap _ _ _ breaks_column body.columns
  have indexes := breaks_mapM_flatMap _ _ _ breaks_index body.indexes
  have given := exists_gives_congr _ _ columns
  rw [Tree.TableBody.details, breaks_mapM_append, ← columns, ← indexes, ← given]
  simp [Table.ofTree]

/-- An integer of more digits than are converted. -/
def Tree.Literal.TooLong (l : Tree.Literal) : Prop :=
  l.kind = .integer ∧ (integerOf? l.text.toList).isSome = true ∧ Interruption.digitLimit < numeralWidth l.text.toList

/-- Details that end the whole run. -/
inductive Detail.Interrupts : Detail → Interruption → Prop
  | literal (l : Tree.Literal) (long : l.TooLong) :
    Interrupts (.literal (some l)) (.integerTooLong (numeralWidth l.text.toList))
  | key (code : Int) : Interrupts (.key (.other code)) (.unknownKeyOption code)

theorem stops_decodeInteger (raw : String) (i : Interruption) :
    (decodeInteger raw).Stops i ↔
      ((integerOf? raw.toList).isSome = true ∧ Interruption.digitLimit < numeralWidth raw.toList) ∧
        i = .integerTooLong (numeralWidth raw.toList) := by
  unfold decodeInteger
  dsimp only
  split
  next n found =>
    split
    next long => simp [found, long]
    next short =>
      split <;> simp [short]
  next missing => simp [missing]

theorem rejects_decodeInteger (raw : String) (e : Rejection) (rejected : (decodeInteger raw).Rejects e) :
    e = .malformedNumber .integer raw := by
  unfold decodeInteger at rejected
  dsimp only at rejected
  split at rejected
  · split at rejected
    · simp at rejected
    · split at rejected
      · simp at rejected
      · simpa using rejected
  · simpa using rejected

theorem not_stops_decodeFloat (raw : String) (i : Interruption) : ¬ (decodeFloat raw).Stops i := by
  unfold decodeFloat
  split <;> simp

theorem rejects_decodeFloat (raw : String) (e : Rejection) (rejected : (decodeFloat raw).Rejects e) :
    e = .malformedNumber .float raw := by
  unfold decodeFloat at rejected
  split at rejected
  · simp at rejected
  · simpa using rejected

theorem stops_literal (l : Tree.Literal) (i : Interruption) :
    (Value.ofLiteral l).Stops i ↔ l.TooLong ∧ i = .integerTooLong (numeralWidth l.text.toList) := by
  obtain ⟨kind, text⟩ := l
  cases kind with
  | integer => simp [Value.ofLiteral, Tree.Literal.TooLong, stops_decodeInteger]
  | float => simp [Value.ofLiteral, Tree.Literal.TooLong, not_stops_decodeFloat]
  | _ => simp [Value.ofLiteral, Tree.Literal.TooLong]

theorem rejects_literal (l : Tree.Literal) (e : Rejection) (rejected : (Value.ofLiteral l).Rejects e) :
    ∃ kind raw, e = .malformedNumber kind raw := by
  obtain ⟨kind, text⟩ := l
  cases kind with
  | integer => exact ⟨_, _, rejects_decodeInteger text e (by simpa [Value.ofLiteral] using rejected)⟩
  | float => exact ⟨_, _, rejects_decodeFloat text e (by simpa [Value.ofLiteral] using rejected)⟩
  | _ => simp [Value.ofLiteral] at rejected

theorem stops_detail (x : Detail) (i : Interruption) : x.decode.Stops i ↔ x.Interrupts i := by
  constructor
  · intro stopped
    match x with
    | .literal none => simp [Detail.decode, Value.ofLiteral?] at stopped
    | .literal (some l) =>
      obtain ⟨long, rfl⟩ := (stops_literal l i).mp (by simpa [Detail.decode, Value.ofLiteral?] using stopped)
      exact .literal l long
    | .key k =>
      cases k with
      | other code =>
        have same : i = .unknownKeyOption code := by simpa [Detail.decode, KeyOption.ofTree] using stopped
        exact same ▸ .key code
      | _ => simp [Detail.decode, KeyOption.ofTree] at stopped
  · intro interrupts
    cases interrupts with
    | literal l long => simpa [Detail.decode, Value.ofLiteral?] using (stops_literal l _).mpr ⟨long, rfl⟩
    | key code => simp [Detail.decode, KeyOption.ofTree]

theorem rejects_detail (x : Detail) (e : Rejection) (rejected : x.decode.Rejects e) :
    ∃ kind raw, e = .malformedNumber kind raw := by
  match x with
  | .literal none => simp [Detail.decode, Value.ofLiteral?] at rejected
  | .literal (some l) => exact rejects_literal l e (by simpa [Detail.decode, Value.ofLiteral?] using rejected)
  | .key k => cases k <;> simp [Detail.decode, KeyOption.ofTree] at rejected

end SqlSchema
