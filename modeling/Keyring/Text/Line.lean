/-!
The lines of a text. A line ends with a line feed, or with a carriage return
and a line feed; the last line may lack its end.
-/

namespace Keyring.Text

/-- Puts a character in front of the first line, which starts a line if there
is none. -/
def consLine (c : Char) : List (List Char) → List (List Char)
  | [] => [[c]]
  | line :: rest => (c :: line) :: rest

/-- The lines of a text without their ends. -/
def lines : List Char → List (List Char)
  | [] => []
  | '\n' :: rest => [] :: lines rest
  | '\r' :: '\n' :: rest => [] :: lines rest
  | c :: rest => consLine c (lines rest)

/-- The text that consists of the given lines, each ended by a line feed. A program
built for Windows would end them with a carriage return and a line feed, which `lines`
reads alike. -/
def unlines (lines : List (List Char)) : List Char :=
  lines.flatMap fun line => line ++ ['\n']

end Keyring.Text
