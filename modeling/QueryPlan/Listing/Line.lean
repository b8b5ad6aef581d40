import QueryPlan.Plan.Basic

/-!
# Lines of a plan listing

What one line of a listing says, and how the names of fields and expressions are written in it.
-/
namespace QueryPlan

/-- The name of the field at `pos`, or its position if it has no name. -/
def Field.label (pos : Nat) : Option Field → String
  | some f => if f.name.isEmpty then s!"#{pos}" else f.name
  | none => s!"#{pos}"

def RowType.label (row : RowType) (pos : Nat) : String := Field.label pos row[pos]?

def RowType.labels (row : RowType) (cols : ColumnList) : List String :=
  let fields := row.toArray
  cols.map fun c => Field.label c.toNat fields[c.toNat]?

@[simp] theorem RowType.labels_eq_map (row : RowType) (cols : ColumnList) :
    row.labels cols = cols.map fun c => row.label c.toNat := by
  simp [labels, label]

namespace Scalar

mutual
def render (row : RowType) : Scalar → String
  | .field pos _ => row.label pos
  | .cast e t => "CAST(" ++ e.render row ++ " AS " ++ t.render ++ ")"
  | .isNotNull e => e.render row ++ " IS NOT NULL"
  | .conj es => " AND ".intercalate (renderAll row es)
def renderAll (row : RowType) : List Scalar → List String
  | [] => []
  | e :: es => e.render row :: renderAll row es
end

@[simp] theorem renderAll_eq_map (row : RowType) (es : List Scalar) :
    renderAll row es = es.map (render row) := by
  induction es with
  | nil => rfl
  | cons e es ih => simp [renderAll, ih]

end Scalar

/-- What a line says. The first seven name an operator, the others describe the operator above them. -/
inductive LineContent
  | semiJoin
  | tableScan (table : String)
  | ixIntersect
  | ixMerge
  | ixSearch (index table : String)
  | sort (keys : List String) (distinct : Bool)
  | project (exprs : List String)
  | joinCond (lhs rhs : List String)
  | columns (names : List String)
  | residualFilter
  | params (params : GroupParams)
  | ridLimit (param : ParamId)
  | searchFlags (uniqueKey outer : Bool)
  | filter (predicate : String)
deriving DecidableEq

namespace LineContent

/-- Does the line name an operator? -/
def isOperator : LineContent → Bool
  | semiJoin | tableScan .. | ixIntersect | ixMerge | ixSearch .. | sort .. | project .. => true
  | _ => false

private def commas (texts : List String) : String := ", ".intercalate texts

def text : LineContent → String
  | semiJoin => "Semi Join"
  | tableScan table => "Table Scan on " ++ table
  | ixIntersect => "Index Intersect"
  | ixMerge => "Index Merge"
  | ixSearch index table => "Index Search using " ++ index ++ " on " ++ table
  | sort keys distinct => "Sort: " ++ commas keys ++ (if distinct then " (distinct)" else "")
  | project exprs => "Projection: " ++ commas exprs
  | joinCond lhs rhs => "Join Cond: (" ++ commas (lhs.zipWith (fun l r => l ++ " = " ++ r) rhs) ++ ")"
  | columns names => "Columns: " ++ commas names
  | residualFilter => "Residual Filter: true"
  | params p => s!"Start Rid: ${p.startRid}, Row Limit: ${p.rowLimit}"
  | ridLimit param => s!"Rid Limit: ${param}"
  | searchFlags uniqueKey outer => s!"Unique Key: {uniqueKey}, Outer: {outer}"
  | filter predicate => "Filter: (" ++ predicate ++ ")"

end LineContent

/-- A line and its indentation, which is counted in 16 bits. -/
structure Line where
  indent : UInt16
  content : LineContent
deriving DecidableEq

/-- The line as text: an operator below another is marked by an arrow. -/
def Line.render (l : Line) : String :=
  let arrow := if l.content.isOperator && l.indent > 0 then "-> " else ""
  "".pushn ' ' l.indent.toNat ++ arrow ++ l.content.text

end QueryPlan
