import QueryPlan.ColumnList

/-!
# Key assignments

A key assignment says which join key supplies each of the leading key columns of an index. Index keys are matched
in order, each with the first join key on its column that is not used yet, and matching stops at the first
index key that finds none.
-/
namespace QueryPlan

/-- Entry `p` is the position of the join key that supplies index key `p`. -/
abbrev KeyAssignment := List Nat

namespace KeyAssignment

/-- Assigns the join keys that are still free, each given by its column and its position. -/
def extend (free : List (ColumnId × Nat)) : ColumnList → KeyAssignment
  | [] => []
  | key :: keys =>
    match free.find? (·.1 = key) with
    | some (_, i) => i :: extend (free.eraseP (·.1 = key)) keys
    | none => []

/-- The assignment for the leading `keys` of an index. -/
def ofKeys (keys : ColumnList) (joinCols : List ColumnId) : KeyAssignment := extend joinCols.zipIdx keys

def render (a : KeyAssignment) : String := "[" ++ ", ".intercalate (a.map toString) ++ "]"

@[simp] theorem ofKeys_nil (joinCols : List ColumnId) : ofKeys [] joinCols = [] := rfl

end KeyAssignment

end QueryPlan
