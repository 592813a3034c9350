import Quire.Pdf.Value

/-!
# Content of PDF pages

The content of a page is a sequence of operations: operands, and an operator behind them.
-/

namespace Quire.Pdf

open Reader

/-- An operator with the operands before it. -/
structure Operation where
  operands : List Value
  operator : Text
  deriving Repr

/-- White space between operands and operators. -/
def contentSpace : Reader Unit := do
  let _ ← run fun c => [' ', '\t', '\r', '\n'].contains c

/-- An operand that is neither an array nor a dictionary, or one of these. -/
def operand : Reader Value :=
  scalar <|>
  (do return .array (← array value)) <|>
  (do return .dictionary (← dictionary value))

/-- An operation. -/
def operation : Reader Operation := do
  let operands ← many (do
    let v ← operand
    contentSpace
    return v)
  let operator ← run1 fun c => c.isAlpha || ['*', '\'', '"'].contains c
  contentSpace
  return ⟨operands, operator⟩

/-- The operations of a content, up to the first one that is malformed. -/
def operations (t : Text) : List Operation :=
  match (do contentSpace; many operation : Reader (List Operation)) t with
  | some (found, _) => found
  | none => []

end Quire.Pdf
