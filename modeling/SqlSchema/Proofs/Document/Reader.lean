import SqlSchema.Document.Json
import SqlSchema.Schema.Decode

/-! Reading JSON. A machine goes through a text once, character by character. It keeps the lists and mappings that have
begun, and what it is about to read in the innermost one. -/
namespace SqlSchema.Document.Json
open Text

def isSpace (c : Char) : Bool := c ∈ [' ', '\t', '\n', '\r']

/-- A character at which a word ends. -/
def parts (c : Char) : Bool := isSpace c || c ∈ [',', ':', '\x22', '[', ']', '\x7b', '\x7d']

/-! Words: the three constants, and numbers. -/

/-- No zero stands in front of other digits. -/
def leads (digits : List Char) : Bool := digits == ['0'] || digits.head?.any (· != '0')

/-- A point has digits behind it. -/
def pointed (cs : List Char) : Bool := cs.head? != some '.' || cs.tail.head?.any (·.isDigit)

/-- A number is a whole one if it has neither a point nor an exponent. One that is too great is infinite. -/
def number? (cs : List Char) : Option Document :=
  let (whole, behind) := takeDigits (if cs.head? = some '-' then cs.tail else cs)
  if !leads whole || !pointed behind then none
  else if behind.isEmpty then (integerOf? cs).map .integer
  else (Decimal.read? cs).map fun x => .float ⟨x.negative, min x.magnitude Binary64.infinity⟩

def word? (cs : List Char) : Option Document :=
  if cs = "null".toList then some .null
  else if cs = "true".toList then some (.bool true)
  else if cs = "false".toList then some (.bool false)
  else number? cs

/-! Texts, in units of sixteen bits where they are escaped. -/

def character? (unit : Nat) : Option Char := if unit.isValidChar then some (Char.ofNat unit) else none

/-- A character beyond the sixteen bits is escaped in two halves, and neither half is a character. -/
def characters? : List Nat → Option (List Char)
  | [] => some []
  | unit :: rest =>
    if 0xd800 ≤ unit ∧ unit < 0xdc00 then
      match rest with
      | low :: rest =>
        if 0xdc00 ≤ low ∧ low < 0xe000 then
          (characters? rest).map (Char.ofNat (0x10000 + (unit - 0xd800) * 0x400 + (low - 0xdc00)) :: ·)
        else none
      | [] => none
    else (character? unit).bind fun c => (characters? rest).map (c :: ·)

/-- What a letter stands for behind a backslash. -/
def escaped? : Char → Option Char
  | '\x22' => some '\x22'
  | '\\' => some '\\'
  | '/' => some '/'
  | 'n' => some '\n'
  | 'r' => some '\r'
  | 't' => some '\t'
  | 'f' => some '\x0c'
  | 'b' => some '\x08'
  | _ => none

/-! The machine. -/

/-- A list or a mapping that has begun, with what is complete in it. A mapping has a key whenever a value is due. -/
inductive Frame where
  | list (items : List Document)
  | mapping (entries : List (String × Document)) (key : Option String)

/-- How far an escaped character has been read. -/
inductive Escape where
  | none
  | backslash
  | digits (count value : Nat)

inductive Phase where
  /-- A value comes next, or a key in a mapping that has none, or the end of what has just begun. -/
  | due
  | colon
  | text (escape : Escape) (units : List Nat)
  | word (chars : List Char)
  | past (document : Document)

structure State where
  frames : List Frame
  phase : Phase

def begin (frames : List Frame) (c : Char) : Option State :=
  if isSpace c then some ⟨frames, .due⟩
  else
    match c, frames with
    | '\x22', _ => some ⟨frames, .text .none []⟩
    | '\x7d', .mapping [] none :: outer => some ⟨outer, .past (.mapping [])⟩
    | _, .mapping _ none :: _ => none
    | '[', _ => some ⟨.list [] :: frames, .due⟩
    | ']', .list [] :: outer => some ⟨outer, .past (.list [])⟩
    | '\x7b', _ => some ⟨.mapping [] none :: frames, .due⟩
    | c, _ => if parts c then none else some ⟨frames, .word [c]⟩

/-- What follows a value: a comma, or the end of the list or the mapping in which it stands. -/
def follow (frames : List Frame) (document : Document) (c : Char) : Option State :=
  if isSpace c then some ⟨frames, .past document⟩
  else
    match c, frames with
    | ',', .list items :: outer => some ⟨.list (items ++ [document]) :: outer, .due⟩
    | ']', .list items :: outer => some ⟨outer, .past (.list (items ++ [document]))⟩
    | ',', .mapping entries (some key) :: outer => some ⟨.mapping (entries ++ [(key, document)]) none :: outer, .due⟩
    | '\x7d', .mapping entries (some key) :: outer => some ⟨outer, .past (.mapping (entries ++ [(key, document)]))⟩
    | _, _ => none

/-- A text is a key or a value, as it is due. -/
def close (text : String) : List Frame → State
  | .mapping entries none :: outer => ⟨.mapping entries (some text) :: outer, .colon⟩
  | frames => ⟨frames, .past (.text text)⟩

def spell (frames : List Frame) (units : List Nat) (c : Char) : Escape → Option State
  | .none =>
    if c = '\x22' then (characters? units).map fun cs => close (String.ofList cs) frames
    else if c = '\\' then some ⟨frames, .text .backslash units⟩
    else if c.toNat < 0x20 then none
    else some ⟨frames, .text .none (units ++ [c.toNat])⟩
  | .backslash =>
    if c = 'u' then some ⟨frames, .text (.digits 0 0) units⟩
    else (escaped? c).map fun meant => ⟨frames, .text .none (units ++ [meant.toNat])⟩
  | .digits count value =>
    (hexDigit? c).map fun digit =>
      if count = 3 then ⟨frames, .text .none (units ++ [16 * value + digit])⟩
      else ⟨frames, .text (.digits (count + 1) (16 * value + digit)) units⟩

def step (s : State) (c : Char) : Option State :=
  match s.phase with
  | .due => begin s.frames c
  | .colon =>
    if isSpace c then some s
    else if c = ':' then some ⟨s.frames, .due⟩
    else none
  | .text escape units => spell s.frames units c escape
  | .word chars =>
    if parts c then (word? chars).bind fun document => follow s.frames document c
    else some ⟨s.frames, .word (chars ++ [c])⟩
  | .past document => follow s.frames document c

/-- At the end of the text nothing that has begun is open. -/
def finish : State → Option Document
  | ⟨[], .word chars⟩ => word? chars
  | ⟨[], .past document⟩ => some document
  | _ => none

def run (s : State) (cs : List Char) : Option Document := (cs.foldlM step s).bind finish

/-- The document that a text stands for. Entries keep their order, and repeated keys are kept. -/
def read? (text : String) : Option Document := run ⟨[], .due⟩ text.toList

section
variable (frames : List Frame) (c : Char)

@[simp] theorem step_due : step ⟨frames, .due⟩ c = begin frames c := rfl

@[simp] theorem step_colon : step ⟨frames, .colon⟩ c =
    if isSpace c then some ⟨frames, .colon⟩ else if c = ':' then some ⟨frames, .due⟩ else none := rfl

@[simp] theorem step_text (escape : Escape) (units : List Nat) :
    step ⟨frames, .text escape units⟩ c = spell frames units c escape := rfl

@[simp] theorem step_word (chars : List Char) : step ⟨frames, .word chars⟩ c =
    if parts c then (word? chars).bind fun document => follow frames document c
    else some ⟨frames, .word (chars ++ [c])⟩ := rfl

@[simp] theorem step_past (document : Document) : step ⟨frames, .past document⟩ c = follow frames document c := rfl

end

@[simp] theorem run_cons (s : State) (c : Char) (cs : List Char) : run s (c :: cs) = (step s c).bind (run · cs) := by
  rw [run, List.foldlM_cons, Option.bind_eq_bind, Option.bind_assoc]
  rfl

end SqlSchema.Document.Json
