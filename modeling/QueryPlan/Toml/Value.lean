import QueryPlan.Decimal.Binary64

/-!
# TOML values

A table keeps its entries in the order in which they were made, and remembers how it came about: that decides
what may still be added to it.
-/
namespace QueryPlan

/-- How a table came about. -/
inductive TableForm
  /-- It has a header of its own. -/
  | headed
  /-- It was passed through by the header of another table. -/
  | implied
  /-- It was made by a dotted key. -/
  | dotted
  /-- It stands in braces. -/
  | inline
deriving DecidableEq

inductive Toml
  | string (text : String)
  | integer (value : Int)
  | float (value : Binary64)
  | boolean (value : Bool)
  | moment
  | array (elements : List Toml)
  | table (form : TableForm) (entries : List (String × Toml))
  /-- The tables headed by one name in double brackets. -/
  | tables (elements : List (List (String × Toml)))

namespace Toml

abbrev Entries := List (String × Toml)

namespace Entries

/-- Sets an entry in its place, or adds it at the end. -/
def put (key : String) (value : Toml) : Entries → Entries
  | [] => [(key, value)]
  | (k, v) :: es => if k = key then (k, value) :: es else (k, v) :: put key value es

/-- Changes the last of several tables. -/
def changeLast? (change : Entries → Option Entries) : List Entries → Option (List Entries)
  | [] => none
  | [es] => (change es).map ([·])
  | es :: rest => (changeLast? change rest).map (es :: ·)

/-- Adds an entry under a dotted key. Every table on the way has to be new, or open to dotted keys, and only a
table made by a dotted key takes the entry itself. -/
def insert? (value : Toml) (key : String) : (path : List String) → Entries → Option Entries
  | [], es => if (es.lookup key).isSome then none else some (es ++ [(key, value)])
  | p :: path, es => do
    let item ← match es.lookup p with
      | none => (insert? value key path []).map (Toml.table .dotted)
      | some (.table form sub) =>
        if form = .dotted ∨ form = .implied ∧ path ≠ [] then
          (insert? value key path sub).map (Toml.table form)
        else none
      | some (.tables elements) =>
        if path ≠ [] then (changeLast? (insert? value key path) elements).map Toml.tables else none
      | some _ => none
    return put p item es

/-- Changes the entries of the table that a header path leads to; tables missing on the way are made. -/
def under? (change : Entries → Option Entries) : (path : List String) → Entries → Option Entries
  | [], es => change es
  | p :: path, es => do
    let item ← match es.lookup p with
      | none => (under? change path []).map (Toml.table .implied)
      | some (.table .inline _) => none
      | some (.table form sub) => (under? change path sub).map (Toml.table form)
      | some (.tables elements) => (changeLast? (under? change path) elements).map Toml.tables
      | some _ => none
    return put p item es

end Entries

end Toml

end QueryPlan
