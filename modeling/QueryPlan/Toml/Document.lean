import QueryPlan.Toml.Value

/-!
# TOML documents

A document is a list of key/value pairs and headers. A header opens a table, or the next of several tables,
and the pairs up to the next header belong to it.
-/
namespace QueryPlan.Toml

/-- A dotted key: the names on the way and the last name. -/
structure Key where
  path : List String
  last : String
deriving DecidableEq

inductive Line
  | blank
  | pair (key : Key) (value : Toml)
  /-- A header in single brackets, or in double brackets if `repeated`. -/
  | header (key : Key) (repeated : Bool)

abbrev Pairs := List (Key × Toml)

structure Section where
  key : Key
  repeated : Bool
  pairs : Pairs

/-- The pairs before the first header, and the sections. -/
def sections : List Line → Pairs × List Section
  | [] => ([], [])
  | .blank :: ls => sections ls
  | .pair key value :: ls =>
    let (pairs, rest) := sections ls
    ((key, value) :: pairs, rest)
  | .header key repeated :: ls =>
    let (pairs, rest) := sections ls
    ([], ⟨key, repeated, pairs⟩ :: rest)

namespace Entries

/-- Adds pairs in order. -/
def insertAll? (pairs : Pairs) (es : Entries) : Option Entries :=
  pairs.foldlM (fun es (key, value) => insert? value key.last key.path es) es

/-- Adds a section. A table may have one header; it goes behind all that was there before, together with what
is known of it from the headers of its subtables. -/
def addSection? (s : Section) (es : Entries) : Option Entries :=
  under? (fun parent =>
    if s.repeated then do
      let element ← insertAll? s.pairs []
      match parent.lookup s.key.last with
      | none => return parent ++ [(s.key.last, .tables [element])]
      | some (.tables elements) => return put s.key.last (.tables (elements ++ [element])) parent
      | some _ => none
    else do
      let known ← match parent.lookup s.key.last with
        | none => some []
        | some (.table .implied known) => some known
        | some _ => none
      let entries ← insertAll? s.pairs known
      return parent.filter (·.1 ≠ s.key.last) ++ [(s.key.last, .table .headed entries)])
    s.key.path es

end Entries

/-- The entries of the document that consists of `lines`. -/
def ofLines? (lines : List Line) : Option Entries := do
  let (pairs, rest) := sections lines
  rest.foldlM (fun es s => Entries.addSection? s es) (← Entries.insertAll? pairs [])

end QueryPlan.Toml
