import QueryPlan.SqlType

/-!
# Row types

The row type of an operator is the list of its named and typed fields.
-/
namespace QueryPlan

/-- A name and a type: a column of a table or a field of a row. -/
structure Field where
  name : String
  type : SqlType
deriving DecidableEq, Inhabited

def Field.render (f : Field) : String := s!"{f.name}: {f.type.render}"

abbrev RowType := List Field

/-- Two lists that have to be paired element by element differ in length. -/
inductive PairingError
  | names (types names : Nat)
  | casts (targets exprs : Nat)
deriving DecidableEq

namespace PairingError

def requirement : PairingError → String
  | names .. => "a field name is required for every type"
  | casts .. => "a target type is required for every expression"

def lengths : PairingError → Nat × Nat
  | names l r => (l, r)
  | casts l r => (l, r)

def message (e : PairingError) : String :=
  s!"assertion `left == right` failed: {e.requirement}\n  left: {e.lengths.1}\n right: {e.lengths.2}"

end PairingError

namespace RowType

/-- Pairs each type with its name. -/
def ofParts (types : List SqlType) (names : List String) : Except PairingError RowType :=
  if types.length = names.length then .ok (names.zipWith Field.mk types)
  else .error (.names types.length names.length)

def type? (row : RowType) (pos : Nat) : Option SqlType := row[pos]?.map Field.type

def name? (row : RowType) (pos : Nat) : Option String := row[pos]?.map Field.name

def names (row : RowType) : List String := row.map Field.name

def render (row : RowType) : String := "(" ++ ", ".intercalate (row.map Field.render) ++ ")"

/-- The row type of every operator that yields row ids. -/
def rid : RowType := [⟨"rid", .ubigint⟩]

end RowType

end QueryPlan
