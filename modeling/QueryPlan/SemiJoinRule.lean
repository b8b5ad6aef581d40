import QueryPlan.Options.Basic
import QueryPlan.Pattern
import QueryPlan.Probe
import QueryPlan.Rule
import QueryPlan.SearchKey
import QueryPlan.Selection

/-!
# Semijoins through an index

A semijoin whose left side is a table scan becomes a scan that reads only the rows an unclustered index holds
for the keys of the right side. Join keys that the chosen index does not cover are not compared any more. If
the scan already reads through a probe, the new probe is intersected with it. There is one rule for each shape
of the row id source of the scan.
-/
namespace QueryPlan

/-- What the left side of the semijoin looks like. -/
inductive ScanShape | scan | intersect | merge
deriving DecidableEq

namespace ScanShape

def pattern : ScanShape → Pattern
  | scan => .operand .semiJoin [.operand .tableScan []]
  | intersect => .operand .semiJoin [.operand .tableScan [.operand .ixIntersect []]]
  | merge => .operand .semiJoin [.operand .tableScan [.operand .ixMerge [.operand .ixSearch []]]]

def ruleName : ScanShape → String
  | scan => "IndexSemiJoinRule(scan)"
  | intersect => "IndexSemiJoinRule(scan, intersect)"
  | merge => "IndexSemiJoinRule(scan, merge, search)"

end ScanShape

structure SemiJoinRule where
  shape : ScanShape
  options : SemiJoinOptions := {}
deriving DecidableEq

/-- The table columns that the left keys of a semijoin refer to. -/
def TableScan.joinColumns (s : TableScan) (lhsKeys : ColumnList) : Except PlanError (List ColumnId) :=
  lhsKeys.mapM fun key =>
    match s.column? key.toNat with
    | some c => .ok c
    | none => .error (.fieldOutOfRange key.toNat s.rowType.length)

/-- Chooses an index and reports each one looked at. -/
def Planner.chooseIndex (indexes : List Index) (joinCols : List ColumnId) (earlyExit : Bool) :
    Planner (Option Candidate) := do
  let s := Selection.ofIndexes indexes joinCols earlyExit
  s.examined.forM fun c => report (.indexExamined c.index.name c.index.keys c.size joinCols.length)
  return s.choice

namespace SemiJoinRule

variable [ParamAllocator]

def name (r : SemiJoinRule) : String := r.shape.ruleName

/-- Is the scan left to a rule for a more specific shape? -/
def defers (r : SemiJoinRule) (s : TableScan) (inputs : List Plan) : Bool :=
  r.shape = .scan && (inputs.length = 1 && !s.extraFilter || (Plan.probe? inputs).isSome)

/-- The probe to intersect with, which has to be the first input of the scan. -/
def existing (r : SemiJoinRule) (s : TableScan) (inputs : List Plan) (bound : Option Plan) :
    Except PlanError (Option Plan) :=
  match r.shape, bound, inputs.head? with
  | .scan, _, _ => .ok none
  | _, some probe, some first =>
    if probe.same first then .ok (some probe)
    else .error (.malformedProbe s.table.name .notFirstInput)
  | _, _, _ => .error (.malformedProbe s.table.name .notFirstInput)

/-- Reads the scan `s` over `inputs` through an index on its join keys. -/
def throughIndex (r : SemiJoinRule) (lhsKeys rhsKeys : ColumnList) (s : TableScan) (inputs : List Plan)
    (rhs : Plan) (bound : Option Plan) : Planner (Option Plan) := do
  if r.defers s inputs then
    Planner.report (.scanDeferred r.name s.table.name)
    return none
  if r.shape ≠ .scan ∧ r.options.intersect = false then
    Planner.report (.intersectDisabled r.name)
    return none
  let existing ← Planner.ofExcept (r.existing s inputs bound)
  let joinCols ← Planner.ofExcept (s.joinColumns lhsKeys)
  Planner.ofExcept (PlanError.liftColumn (s.table.unclustered.forM s.table.checkIndex))
  match ← Planner.chooseIndex s.table.unclustered joinCols r.options.earlyExit with
  | none =>
    Planner.report (.noIndex r.name s.table.name)
    return none
  | some c =>
    Planner.report (.indexChosen r.name s.table.name c.index.name joinCols.length c.assignment)
    let keys ← SearchKey.plan lhsKeys rhsKeys s.rowType rhs c.assignment
    let probe ← Plan.extendProbe existing keys ⟨s.table, c.index.id, s.connection⟩
    return some (← Plan.build (.tableScan s) (probe :: Plan.residual inputs))

/-- Transforms the operators of a match: the semijoin, its left side and, for the longer shapes, the probe. -/
def transform (r : SemiJoinRule) : List Plan → Planner (Option Plan)
  | .node _ (.semiJoin lhsKeys rhsKeys) [_, rhs] :: .node _ (.tableScan s) inputs :: rest =>
    r.throughIndex lhsKeys rhsKeys s inputs rhs rest.head?
  | _ => return none

def toRule (r : SemiJoinRule) : Rule where
  name := r.name
  match? := r.shape.pattern.bind?
  transform := r.transform

/-- The rules for every shape. -/
def all (options : SemiJoinOptions) : List SemiJoinRule :=
  [⟨.scan, options⟩, ⟨.intersect, options⟩, ⟨.merge, options⟩]

end SemiJoinRule

/-- Every rule, under the given options. -/
def RuleSet.ofOptions [ParamAllocator] (options : RuleOptions) : RuleSet :=
  (SemiJoinRule.all options.semiJoin).map SemiJoinRule.toRule

end QueryPlan
