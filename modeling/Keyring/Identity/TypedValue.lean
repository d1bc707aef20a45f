import Keyring.Data.Value

/-!
Values that carry the name of their type.
-/

namespace Keyring

/-- A value in base 64 under the name of its type. -/
structure TypedValue where
  type : String
  value : String
  deriving DecidableEq, Repr

namespace TypedValue

/-- Reads a table with both parts as texts, whatever else it holds, or a list of
exactly the two texts. -/
def ofValue? : Data.Value → Option TypedValue
  | .table fields => do
    let type ← (fields.lookup "type").bind Data.Value.text?
    let value ← (fields.lookup "value").bind Data.Value.text?
    return ⟨type, value⟩
  | .list [.text type, .text value] => some ⟨type, value⟩
  | _ => none

end TypedValue

end Keyring
