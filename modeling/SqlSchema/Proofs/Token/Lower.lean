import SqlSchema.Proofs.Token.Carried

/-! Small letters make the same tokens. -/
namespace SqlSchema.Token
open Text

def Carrier.lowering : Carrier where
  shift := Char.toLower
  tail := []
  caseless := toLower_toLower
  sealed := List.forall_mem_nil _

/-- The token in small letters. -/
def lowered (t : Token) : Token := { t with text := lower t.text }

/-- Small letters make the same tokens, in small letters. -/
theorem scan_lower (cs : List Char) (free : '$' ∉ cs) : scan (lower cs) = (scan cs).map lowered := by
  have same := Carrier.lowering.scanFrom_carry none cs free (.inl rfl)
  have text : Carrier.lowering.carry cs = lower cs := List.append_nil _
  have none : Carrier.lowering.tailTokens = [] := rfl
  rw [text, none, List.append_nil] at same
  exact same

end SqlSchema.Token
