import Keyring.Error

/-!
Paths: names with slashes between them.

A path starts at the root if a slash comes first, and otherwise at the directory
in which the program works. Further slashes between two names count as one.
-/

namespace Keyring

/-- A path as the names along it, whether it starts at the root, and whether a
slash follows the last name. -/
structure Path where
  fromRoot : Bool
  names : List String
  slashed : Bool
  deriving DecidableEq, Repr

namespace Path

def slash : Char := '/'

def here : String := "."

def above : String := ".."

def maxNameLength : Nat := 255

def maxLength : Nat := 4095

def consName (c : Char) : List (List Char) → List (List Char)
  | [] => [[c]]
  | name :: rest => (c :: name) :: rest

/-- What stands between the slashes of a text. -/
def pieces : List Char → List (List Char)
  | [] => [[]]
  | c :: rest => if c = slash then [] :: pieces rest else consName c (pieces rest)

/-- The path that a text describes. A text with a zero character describes none,
nor does one that is too long or empty. -/
def ofText (text : String) : Except StorageFault Path :=
  let cs := text.toList
  if '\x00' ∈ cs then .error .unusablePath
  else if maxLength < text.utf8ByteSize then .error .nameTooLong
  else if cs = [] then .error .notFound
  else .ok {
    fromRoot := cs.head? = some slash
    names := ((pieces cs).filter (· ≠ [])).map String.ofList
    slashed := cs.getLast? = some slash }

end Path

end Keyring
