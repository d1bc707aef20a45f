/-!
Values that describe themselves, as documents hold them.
-/

namespace Keyring.Data

/-- A value in a document. Numbers, dates and the like are kept apart from texts
only, since nothing here reads them. -/
inductive Value where
  | text (value : String)
  | scalar
  | list (items : List Value)
  | table (fields : List (String × Value))
  deriving Inhabited

namespace Value

def text? : Value → Option String
  | text value => some value
  | _ => none

end Value

end Keyring.Data
