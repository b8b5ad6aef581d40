import QueryPlan.Error

/-!
# Access to the fields of a row
-/
namespace QueryPlan

namespace RowType

/-- Field `pos` of a row. -/
def field (row : RowType) (pos : Nat) : Except PlanError Field :=
  match row[pos]? with
  | some f => .ok f
  | none => .error (.fieldOutOfRange pos row.length)

/-- Reports the first key that is not a field of the row. -/
def checkKeys (row : RowType) (keys : ColumnList) : Except PlanError Unit :=
  let width := row.length
  match keys.find? (width ≤ ·.toNat) with
  | some c => .error (.fieldOutOfRange c.toNat width)
  | none => .ok ()

end RowType

end QueryPlan
