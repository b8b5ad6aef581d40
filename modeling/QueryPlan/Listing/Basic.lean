import QueryPlan.Listing.Line

/-!
# Plan listings

A listing shows a plan in pre-order, each operator two columns deeper than the one it feeds and its details
below it. A filter takes no place of its own: its predicate follows the listing of its input, two columns
deeper.
-/
namespace QueryPlan

namespace Operator

/-- The line that names the operator over inputs of the given row types. -/
def heading (op : Operator) (rows : List RowType) : LineContent :=
  match op with
  | semiJoin .. => .semiJoin
  | tableScan s => .tableScan s.table.name
  | ixSearch source .. =>
    let name := source.indexName?.getD ""
    .ixSearch (if name.isEmpty then s!"index id {source.index}" else name) source.table.name
  | ixMerge .. => .ixMerge
  | ixIntersect .. => .ixIntersect
  | project fields => .project (fields.map fun f => f.expr.render (rows.headD []))
  | sort keys distinct => .sort ((rows.headD []).labels keys) distinct
  | filter predicate => .filter (predicate.render (rows.headD []))

/-- The lines that describe the operator. -/
def details (op : Operator) (rows : List RowType) : List LineContent :=
  match op with
  | semiJoin lhsKeys rhsKeys =>
    [.joinCond ((rows.headD []).labels lhsKeys) (RowType.labels (rows[1]?.getD []) rhsKeys)]
  | tableScan s =>
    (s.projected.map fun cols => .columns (s.table.columns.labels cols)).toList ++
      (if s.extraFilter then [.residualFilter] else [])
  | ixSearch _ uniqueKey outer params => .searchFlags uniqueKey outer :: (params.map .params).toList
  | ixMerge params ridLimit => .ridLimit ridLimit :: (params.map .params).toList
  | ixIntersect params => [.params params]
  | project .. | sort .. | filter .. => []

end Operator

namespace Plan

mutual
/-- The lines of a plan whose outermost operator stands at `indent`, and then `rest`. -/
def linesOnto (indent : UInt16) (rest : List Line) : Plan → List Line
  | .node _ (.filter predicate) inputs =>
    let last := ⟨indent + 2, (Operator.filter predicate).heading (inputs.map rowType)⟩
    linesAllOnto indent (last :: rest) inputs
  | .node _ op inputs =>
    let rows := inputs.map rowType
    ⟨indent, op.heading rows⟩ ::
      ((op.details rows).map (Line.mk (indent + 2)) ++ linesAllOnto (indent + 2) rest inputs)
def linesAllOnto (indent : UInt16) (rest : List Line) : List Plan → List Line
  | [] => rest
  | p :: ps => p.linesOnto indent (linesAllOnto indent rest ps)
end

/-- The lines of a plan whose outermost operator stands at `indent`. -/
def lines (indent : UInt16) (p : Plan) : List Line := p.linesOnto indent []

mutual
theorem linesOnto_eq_append (indent : UInt16) (rest : List Line) (p : Plan) :
    p.linesOnto indent rest = p.lines indent ++ rest :=
  match p with
  | .node _ op inputs => by
    cases op <;> simp [lines, linesOnto, linesAllOnto_eq_append _ _ inputs]
theorem linesAllOnto_eq_append (indent : UInt16) (rest : List Line) (ps : List Plan) :
    linesAllOnto indent rest ps = ps.flatMap (lines indent) ++ rest :=
  match ps with
  | [] => rfl
  | p :: ps => by
    simp [linesAllOnto, linesAllOnto_eq_append _ _ ps, linesOnto_eq_append _ _ p]
end

/-- The predicate of a filter follows the lines of its input. -/
theorem lines_filter (indent : UInt16) (id : NodeId) (predicate : Scalar) (inputs : List Plan) :
    (node id (.filter predicate) inputs).lines indent =
      inputs.flatMap (lines indent) ++
        [⟨indent + 2, (Operator.filter predicate).heading (inputs.map rowType)⟩] := by
  simp [lines, linesOnto, linesAllOnto_eq_append]

/-- Any other operator comes first, then its details, then the lines of its inputs. -/
theorem lines_node (indent : UInt16) (id : NodeId) (op : Operator) (inputs : List Plan)
    (h : op.kind ≠ .filter) :
    (node id op inputs).lines indent =
      ⟨indent, op.heading (inputs.map rowType)⟩ ::
        ((op.details (inputs.map rowType)).map (Line.mk (indent + 2)) ++
          inputs.flatMap (lines (indent + 2))) := by
  cases op <;> simp_all [lines, linesOnto, linesAllOnto_eq_append, Operator.kind]

end Plan

/-- A listing of a plan, which has no lines until it is filled. -/
structure Listing where
  plan : Plan
  showTypes : Bool := false
  lines : List Line := []

namespace Listing

def fill (l : Listing) : Listing := { l with lines := l.plan.lines 0 }

/-- The last line, which names the fields of the result. -/
def outputLine (l : Listing) : String :=
  "  Output: " ++ ", ".intercalate (l.plan.rowType.map fun f => if l.showTypes then f.render else f.name)

def render (l : Listing) : String :=
  String.join (l.lines.map fun line => line.render ++ "\n") ++ l.outputLine

end Listing

end QueryPlan
