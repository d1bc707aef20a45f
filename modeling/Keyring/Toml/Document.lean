import Keyring.Toml.Scalar
import Keyring.Toml.Table
import Keyring.Toml.Text

/-!
TOML documents: keys, values and headers, a statement a line, and the table that
they make up together.

Values nest, so the readers carry a bound on what is left to read; a document
starts with the number of its characters. How deep values and keys may nest is
limited as well.
-/

namespace Keyring.Toml

def isBareKeyChar (c : Char) : Bool := c.isAlphanum || c = '-' || c = '_'

def readKeyPart : List Char → Option (String × List Char)
  | '"' :: rest => (readBasic rest).map fun (text, rest) => (String.ofList text, rest)
  | '\'' :: rest => (readLiteral rest).map fun (text, rest) => (String.ofList text, rest)
  | cs =>
    let (text, rest) := cs.span isBareKeyChar
    if text = [] then none else some (String.ofList text, rest)

/-- The number of levels that are too many: of values within values, or of
tables along a key. -/
def nestingLimit : Nat := 80

/-- The parts of a key, between which there are dots. Spaces behind them are
skipped. -/
def readKeyParts : (bound : Nat) → List Char → Option (List String × List Char)
  | 0, _ => none
  | bound + 1, cs => do
    let (part, rest) ← readKeyPart cs
    match skipSpaces rest with
    | '.' :: rest =>
      let (parts, rest) ← readKeyParts bound (skipSpaces rest)
      return (part :: parts, rest)
    | rest => return ([part], rest)

def readKey (bound : Nat) (cs : List Char) : Option (List String × List Char) := do
  let (parts, rest) ← readKeyParts bound cs
  if parts.length < nestingLimit then return (parts, rest) else none

mutual

/-- A value, at a given depth within other values. -/
def readValue : (bound depth : Nat) → List Char → Option (Data.Value × List Char)
  | 0, _, _ => none
  | bound + 1, depth, cs =>
    match cs with
    | '[' :: rest =>
      if depth + 1 < nestingLimit then do
        let (items, rest) ← readItems bound (depth + 1) (skipGap false rest)
        return (.list items, rest)
      else none
    | '\x7b' :: rest =>
      if depth + 1 < nestingLimit then do
        let (fields, rest) ← readInline bound (depth + 1) (skipSpaces rest)
        return (.table (fieldsToValues fields), rest)
      else none
    | c :: _ =>
      if c = '"' || c = '\'' then do
        let (text, rest) ← readQuoted cs
        return (.text (String.ofList text), rest)
      else
        let (token, rest) := spanScalar cs
        if isScalar token then some (.scalar, rest) else none
    | [] => none

/-- The items of a list up to its closing bracket. A comma may follow the last
one. -/
def readItems : (bound depth : Nat) → List Char → Option (List Data.Value × List Char)
  | 0, _, _ => none
  | bound + 1, depth, cs =>
    match cs with
    | ']' :: rest => some ([], rest)
    | _ => do
      let (item, rest) ← readValue bound depth cs
      match skipGap false rest with
      | ',' :: rest =>
        let (items, rest) ← readItems bound depth (skipGap false rest)
        return (item :: items, rest)
      | ']' :: rest => return ([item], rest)
      | _ => none

/-- The fields of an inline table, which may be empty. -/
def readInline : (bound depth : Nat) → List Char → Option (Fields × List Char)
  | 0, _, _ => none
  | bound + 1, depth, cs =>
    match cs with
    | '\x7d' :: rest => some ([], rest)
    | _ => readInlineFields bound depth [] cs

/-- The fields of an inline table up to its closing brace, of which there is at
least one, added to those before. -/
def readInlineFields : (bound depth : Nat) → Fields → List Char → Option (Fields × List Char)
  | 0, _, _, _ => none
  | bound + 1, depth, fields, cs => do
    let (key, value, rest) ← readPair bound depth cs
    let fields ← fields.insertPair value key
    match skipSpaces rest with
    | ',' :: rest => readInlineFields bound depth fields (skipSpaces rest)
    | '\x7d' :: rest => return (fields, rest)
    | _ => none

def readPair : (bound depth : Nat) → List Char → Option (List String × Data.Value × List Char)
  | 0, _, _ => none
  | bound + 1, depth, cs => do
    let (key, rest) ← readKey bound cs
    match rest with
    | '=' :: rest =>
      let (value, rest) ← readValue bound depth (skipSpaces rest)
      return (key, value, rest)
    | _ => none

end

inductive Statement where
  /-- It is blank, or a comment. -/
  | nothing
  | pair (key : List String) (value : Data.Value)
  | header (key : List String)
  /-- It opens one more table of a list. -/
  | item (key : List String)

def readStatement (bound : Nat) (cs : List Char) : Option (Statement × List Char) :=
  match cs with
  | [] => some (.nothing, cs)
  | '[' :: '[' :: rest => do
    let (key, rest) ← readKey bound (skipSpaces rest)
    match rest with
    | ']' :: ']' :: rest => return (.item key, rest)
    | _ => none
  | '[' :: rest => do
    let (key, rest) ← readKey bound (skipSpaces rest)
    match rest with
    | ']' :: rest => return (.header key, rest)
    | _ => none
  | c :: _ =>
    if c = '#' || (skipLineEnd? cs).isSome then some (.nothing, cs)
    else do
      let (key, value, rest) ← readPair bound 0 cs
      return (.pair key value, rest)

/-- A document under construction: its root, and the path of the table that is
open. -/
structure Draft where
  root : Fields
  current : List String

namespace Draft

def empty : Draft := ⟨[], []⟩

def take (draft : Draft) : Statement → Option Draft
  | .nothing => some draft
  | .pair key value => do
    let root ← draft.root.descend (Fields.insertPair value key) draft.current
    return { draft with root := root }
  | .header key => do
    let last ← key.getLast?
    let root ← draft.root.descend (Fields.openTable last) key.dropLast
    return ⟨root, key⟩
  | .item key => do
    let last ← key.getLast?
    let root ← draft.root.descend (Fields.openItem last) key.dropLast
    return ⟨root, key⟩

def takeLines : (bound : Nat) → Draft → List Char → Option Draft
  | 0, _, _ => none
  | bound + 1, draft, cs => do
    let (statement, rest) ← readStatement bound (skipSpaces cs)
    let draft ← draft.take statement
    match skipComment (skipSpaces rest) with
    | [] => return draft
    | rest =>
      let rest ← skipLineEnd? rest
      takeLines bound draft rest

end Draft

/-- The character that may mark the beginning of a document. -/
def byteOrderMark : Char := '\ufeff'

def parse? (text : String) : Option (List (String × Data.Value)) :=
  let cs := text.toList
  let cs := if cs.head? = some byteOrderMark then cs.tail else cs
  (Draft.takeLines (4 * cs.length + 8) .empty cs).map fun draft => fieldsToValues draft.root

end Keyring.Toml
