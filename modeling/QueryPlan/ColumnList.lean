import QueryPlan.Ident

/-!
# Column lists

Index keys, sort keys and join keys are ordered lists of columns in which repetitions count.
-/
namespace QueryPlan

abbrev ColumnList := List ColumnId

namespace ColumnList

def ofNats (positions : List Nat) : ColumnList := positions.map ColumnId.ofNat

/-- The first `n` column ids in order; from the 65537th on they start again at zero. -/
def iota (n : Nat) : ColumnList := ofNats (List.range n)

/-- The column of a list that has exactly one. -/
def singleton? : ColumnList → Option ColumnId
  | [c] => some c
  | _ => none

def render (cols : ColumnList) : String := "[" ++ ", ".intercalate (cols.map toString) ++ "]"

@[simp] theorem length_iota (n : Nat) : (iota n).length = n := by simp [iota, ofNats]

theorem getElem?_iota {n i : Nat} (h : i < n) : (iota n)[i]? = some (ColumnId.ofNat i) := by
  simp [iota, ofNats, h]

end ColumnList

end QueryPlan
