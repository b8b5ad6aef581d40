import QueryPlan.Param
import QueryPlan.Scalar

/-!
# Operators

An operator is the payload of a plan node, without its inputs. It sees its inputs only through their number
and their row types: `check` says whether it may stand over inputs of given row types, and `output` is the row
type it then has.
-/
namespace QueryPlan

structure TableScan where
  table : Table
  clustered : List IndexId
  connection : ConnectionId
  /-- The columns returned, in order; all of them if there is none. -/
  projected : Option ColumnList
  extraFilter : Bool
deriving DecidableEq

/-- An index as it is read by a search. -/
structure IndexSource where
  table : Table
  index : IndexId
  connection : ConnectionId
deriving DecidableEq

/-- A computed field and its name. -/
structure Projection where
  name : String
  expr : Scalar
deriving DecidableEq

inductive Operator
  /-- The rows of the first input for which some row of the second has the same keys. -/
  | semiJoin (lhsKeys rhsKeys : ColumnList)
  /-- The rows of a table, read through the row ids of its first input if that is a probe. -/
  | tableScan (scan : TableScan)
  /-- The row ids an index holds for the rows of the input. -/
  | ixSearch (source : IndexSource) (uniqueKey outer : Bool) (params : Option GroupParams)
  /-- The row ids of a search in row id order. -/
  | ixMerge (params : Option GroupParams) (ridLimit : ParamId)
  /-- The row ids that all inputs have in common. -/
  | ixIntersect (params : GroupParams)
  | project (fields : List Projection)
  | sort (keys : ColumnList) (distinct : Bool)
  | filter (predicate : Scalar)
deriving DecidableEq

/-- Looks up an index by its id. -/
def Table.index (t : Table) (id : IndexId) : Except PlanError Index :=
  match t.index? id with
  | some index => .ok index
  | none => .error (.unknownIndex id t.name)

namespace TableScan

/-- The row type of a scan whose projected columns exist. -/
def rowType (s : TableScan) : RowType :=
  match s.projected with
  | none => s.table.columns
  | some cols => cols.filterMap fun c => s.table.columns[c.toNat]?

def check (s : TableScan) : Except PlanError Unit := do
  s.clustered.forM fun id => discard (s.table.index id)
  match s.projected with
  | none => return
  | some cols => discard (PlanError.liftColumn (s.table.project cols))

/-- The table column that field `pos` of the scan comes from. -/
def column? (s : TableScan) (pos : Nat) : Option ColumnId :=
  match s.projected with
  | none => if pos < s.table.columns.length then some (.ofNat pos) else none
  | some cols => cols[pos]?

end TableScan

namespace IndexSource

def indexName? (s : IndexSource) : Option String := (s.table.index? s.index).map Index.name

end IndexSource

namespace Operator

def kind : Operator → OperatorKind
  | semiJoin .. => .semiJoin
  | tableScan .. => .tableScan
  | ixSearch .. => .ixSearch
  | ixMerge .. => .ixMerge
  | ixIntersect .. => .ixIntersect
  | project .. => .project
  | sort .. => .sort
  | filter .. => .filter

/-- Is it a row id source for a table scan? -/
def isProbe : Operator → Bool
  | ixMerge .. | ixIntersect .. => true
  | _ => false

/-- The row type of an operator that does not pass on the rows of its first input. -/
def ownOutput? : Operator → Option RowType
  | semiJoin .. | sort .. | filter .. => none
  | tableScan scan => some scan.rowType
  | ixSearch .. | ixMerge .. | ixIntersect .. => some .rid
  | project fields => some (fields.map fun f => ⟨f.name, f.expr.type⟩)

/-- The row type of the operator over a first input of row type `leading`. -/
def output (op : Operator) (leading : RowType) : RowType := op.ownOutput?.getD leading

/-- Checks the operator over inputs of the given row types. -/
def check (op : Operator) (inputs : List RowType) : Except PlanError Unit :=
  match op, inputs with
  | semiJoin lhsKeys rhsKeys, [lhs, rhs] => do
    if lhsKeys.length ≠ rhsKeys.length then throw (.joinKeyArity lhsKeys.length rhsKeys.length)
    lhs.checkKeys lhsKeys
    rhs.checkKeys rhsKeys
  | tableScan scan, _ => scan.check
  | ixSearch source .., [_] => discard (source.table.index source.index)
  | ixMerge .., [_] => return
  | ixIntersect _, _ => if inputs.length < 2 then throw (.intersectArity inputs.length) else return
  | project fields, [row] => fields.forM fun f => f.expr.checkFields row
  | sort keys _, [row] => row.checkKeys keys
  | filter predicate, [row] => predicate.checkFields row
  | _, _ => throw (.inputArity op.kind (op.kind.arity?.getD 0) inputs.length)

/-- An operator of a fixed arity refuses every other number of inputs. -/
theorem check_eq_inputArity {op : Operator} {rows : List RowType} {n : Nat} (arity : op.kind.arity? = some n)
    (other : rows.length ≠ n) : op.check rows = .error (.inputArity op.kind n rows.length) := by
  unfold check
  split
  all_goals first
    | exact absurd (Option.some.inj arity) other
    | cases arity
    | rw [arity]; rfl

end Operator

end QueryPlan
