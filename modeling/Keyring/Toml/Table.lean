import Keyring.Data.Value

/-!
The tables of a TOML document while it is read.

A table may be named by a header, by a dotted key, or only on the way to
another table. Each can be completed in its own way only, and nothing can be
named twice.
-/

namespace Keyring.Toml

/-- How a table came into being. -/
inductive Origin where
  /-- It was passed on the way to a table that a header names. -/
  | implied
  /-- A header names it. -/
  | header
  /-- A dotted key passes through it. -/
  | dotted
  deriving DecidableEq

inductive Node where
  | value (value : Data.Value)
  | table (origin : Origin) (fields : List (String × Node))
  | tables (items : List (List (String × Node)))

abbrev Fields := List (String × Node)

namespace Fields

def set (key : String) (node : Node) : Fields → Fields
  | [] => [(key, node)]
  | field :: rest => if field.1 = key then (key, node) :: rest else field :: set key node rest

/-- Adds a value under a dotted key. The table that takes it is a dotted one;
those on the way there may also be implied, or the last of a list. -/
def insertPair (value : Data.Value) : (key : List String) → Fields → Option Fields
  | [], _ => none
  | [key], fields =>
    match fields.lookup key with
    | none => some (fields.set key (.value value))
    | some _ => none
  | key :: rest, fields =>
    match fields.lookup key with
    | none => do
      let inner ← insertPair value rest []
      return fields.set key (.table .dotted inner)
    | some (.table .dotted inner) => do
      let inner ← insertPair value rest inner
      return fields.set key (.table .dotted inner)
    | some (.table .implied inner) =>
      if rest.length = 1 then none
      else do
        let inner ← insertPair value rest inner
        return fields.set key (.table .implied inner)
    | some (.tables items) =>
      if rest.length = 1 then none
      else do
        let inner ← insertPair value rest (items.getLast?.getD [])
        return fields.set key (.tables (items.dropLast ++ [inner]))
    | some _ => none

/-- Changes the table at a path of header keys. Missing tables on the way are
implied, and a list of tables stands for its last one. -/
def descend (act : Fields → Option Fields) : (path : List String) → Fields → Option Fields
  | [], fields => act fields
  | key :: rest, fields =>
    match fields.lookup key with
    | none => do
      let inner ← descend act rest []
      return fields.set key (.table .implied inner)
    | some (.table origin inner) => do
      let inner ← descend act rest inner
      return fields.set key (.table origin inner)
    | some (.tables items) => do
      let inner ← descend act rest (items.getLast?.getD [])
      return fields.set key (.tables (items.dropLast ++ [inner]))
    | some (.value _) => none

/-- Opens the table that a header names, which must be new or only implied. -/
def openTable (key : String) (fields : Fields) : Option Fields :=
  match fields.lookup key with
  | none => some (fields.set key (.table .header []))
  | some (.table .implied inner) => some (fields.set key (.table .header inner))
  | some _ => none

/-- Opens one more table of the list that a header names. -/
def openItem (key : String) (fields : Fields) : Option Fields :=
  match fields.lookup key with
  | none => some (fields.set key (.tables [[]]))
  | some (.tables items) => some (fields.set key (.tables (items ++ [[]])))
  | some _ => none

end Fields

mutual

def Node.toValue : Node → Data.Value
  | .value value => value
  | .table _ fields => .table (fieldsToValues fields)
  | .tables items => .list (itemsToValues items)

def fieldsToValues : List (String × Node) → List (String × Data.Value)
  | [] => []
  | (key, node) :: rest => (key, node.toValue) :: fieldsToValues rest

def itemsToValues : List (List (String × Node)) → List Data.Value
  | [] => []
  | fields :: rest => .table (fieldsToValues fields) :: itemsToValues rest

end

end Keyring.Toml
