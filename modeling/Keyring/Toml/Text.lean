import Keyring.Bytes.Hex

/-!
The lexical part of TOML: spaces, line ends, comments and the four kinds of
quoted text.

Each reader takes the characters that are left and returns what it read with the
characters behind it.
-/

namespace Keyring.Toml

def isSpace (c : Char) : Bool := c = ' ' || c = '\t'

/-- What may stand in comments and quoted texts: all but control characters,
and the tab. -/
def isPrintable (c : Char) : Bool := c = '\t' || (0x20 ≤ c.toNat && c.toNat ≠ 0x7f)

def skipSpaces (cs : List Char) : List Char := cs.dropWhile isSpace

def skipLineEnd? : List Char → Option (List Char)
  | '\n' :: rest => some rest
  | '\r' :: '\n' :: rest => some rest
  | _ => none

def skipComment : List Char → List Char
  | '#' :: rest => rest.dropWhile isPrintable
  | cs => cs

/-- What is left behind spaces, line ends and comments. The flag tells whether
the text starts within a comment. -/
def skipGap (inComment : Bool) : List Char → List Char
  | [] => []
  | '\n' :: rest => skipGap false rest
  | '\r' :: '\n' :: rest => skipGap false rest
  | c :: rest =>
    if inComment then
      if isPrintable c then skipGap true rest else c :: rest
    else if isSpace c then skipGap false rest
    else if c = '#' then skipGap true rest
    else c :: rest

def prepend (c? : Option Char) (more? : Option (List Char × List Char)) :
    Option (List Char × List Char) := do
  let c ← c?
  let (text, rest) ← more?
  return (c :: text, rest)

/-- The character that a letter stands for behind a backslash. -/
def escaped? : Char → Option Char
  | 'b' => some '\x08'
  | 't' => some '\t'
  | 'n' => some '\n'
  | 'f' => some '\x0c'
  | 'r' => some '\r'
  | '"' => some '"'
  | '\\' => some '\\'
  | _ => none

def codePoint? (digits : List Char) : Option Char := do
  let n ← digits.foldlM (fun n c => (Hex.value? c).map (16 * n + UInt8.toNat ·)) 0
  if n.isValidChar then some (Char.ofNat n) else none

def readBasic : List Char → Option (List Char × List Char)
  | [] => none
  | '"' :: rest => some ([], rest)
  | '\\' :: 'u' :: a :: b :: c :: d :: rest =>
    prepend (codePoint? [a, b, c, d]) (readBasic rest)
  | '\\' :: 'U' :: a :: b :: c :: d :: e :: f :: g :: h :: rest =>
    prepend (codePoint? [a, b, c, d, e, f, g, h]) (readBasic rest)
  | '\\' :: c :: rest => prepend (escaped? c) (readBasic rest)
  | c :: rest => if isPrintable c then prepend (some c) (readBasic rest) else none

/-- The rest of a text in single quotes, which knows no escapes. -/
def readLiteral : List Char → Option (List Char × List Char)
  | [] => none
  | '\'' :: rest => some ([], rest)
  | c :: rest => if isPrintable c then prepend (some c) (readLiteral rest) else none

/-- The rest of a text in three double quotes each. Up to two quotes may stand
before the closing ones. A backslash at the end of a line takes away the line
end and all spaces and line ends behind it; the flag tells whether that is going
on. -/
def readLongBasic (joining : Bool) : List Char → Option (List Char × List Char)
  | [] => none
  | '"' :: '"' :: '"' :: '"' :: '"' :: rest => some (['"', '"'], rest)
  | '"' :: '"' :: '"' :: '"' :: rest => some (['"'], rest)
  | '"' :: '"' :: '"' :: rest => some ([], rest)
  | '\\' :: 'u' :: a :: b :: c :: d :: rest =>
    prepend (codePoint? [a, b, c, d]) (readLongBasic false rest)
  | '\\' :: 'U' :: a :: b :: c :: d :: e :: f :: g :: h :: rest =>
    prepend (codePoint? [a, b, c, d, e, f, g, h]) (readLongBasic false rest)
  | '\\' :: c :: rest =>
    if (skipLineEnd? (skipSpaces (c :: rest))).isSome then readLongBasic true (c :: rest)
    else prepend (escaped? c) (readLongBasic false rest)
  | '\n' :: rest =>
    if joining then readLongBasic true rest else prepend (some '\n') (readLongBasic false rest)
  | '\r' :: '\n' :: rest =>
    if joining then readLongBasic true rest else prepend (some '\n') (readLongBasic false rest)
  | c :: rest =>
    if joining && isSpace c then readLongBasic true rest
    else if isPrintable c then prepend (some c) (readLongBasic false rest)
    else none

def readLongLiteral : List Char → Option (List Char × List Char)
  | [] => none
  | '\'' :: '\'' :: '\'' :: '\'' :: '\'' :: rest => some (['\'', '\''], rest)
  | '\'' :: '\'' :: '\'' :: '\'' :: rest => some (['\''], rest)
  | '\'' :: '\'' :: '\'' :: rest => some ([], rest)
  | '\n' :: rest => prepend (some '\n') (readLongLiteral rest)
  | '\r' :: '\n' :: rest => prepend (some '\n') (readLongLiteral rest)
  | c :: rest => if isPrintable c then prepend (some c) (readLongLiteral rest) else none

/-- A text in quotes of any kind. A line end right behind three opening quotes
does not belong to the text. -/
def readQuoted : List Char → Option (List Char × List Char)
  | '"' :: '"' :: '"' :: rest => readLongBasic false ((skipLineEnd? rest).getD rest)
  | '\'' :: '\'' :: '\'' :: rest => readLongLiteral ((skipLineEnd? rest).getD rest)
  | '"' :: rest => readBasic rest
  | '\'' :: rest => readLiteral rest
  | _ => none

end Keyring.Toml
