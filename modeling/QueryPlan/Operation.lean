import QueryPlan.Operator

/-!
# Operators over their inputs

An operator together with its inputs, which each kind holds at places of its own. The inputs are plans or what
stands for plans while they are built. Putting other inputs in these places is possible for as many of them as
the kind has places, or for any number of them where it holds a list.
-/
namespace QueryPlan

structure SemiJoinOver (π : Type) where
  lhs : π
  rhs : π
  lhsKeys : ColumnList
  rhsKeys : ColumnList

structure TableScanOver (π : Type) extends TableScan where
  /-- The row id source, if there is one, and the inputs of the residual condition. -/
  inputs : List π

structure IxSearchOver (π : Type) where
  input : π
  source : IndexSource
  uniqueKey : Bool
  outer : Bool
  params : Option GroupParams

structure IxMergeOver (π : Type) where
  input : π
  params : Option GroupParams
  ridLimit : ParamId

structure IxIntersectOver (π : Type) where
  inputs : List π
  params : GroupParams

structure ProjectOver (π : Type) where
  input : π
  fields : List Projection

structure SortOver (π : Type) where
  input : π
  keys : ColumnList
  distinct : Bool

structure FilterOver (π : Type) where
  input : π
  predicate : Scalar

inductive Operation (π : Type)
  | semiJoin (join : SemiJoinOver π)
  | tableScan (scan : TableScanOver π)
  | ixSearch (search : IxSearchOver π)
  | ixMerge (merge : IxMergeOver π)
  | ixIntersect (intersect : IxIntersectOver π)
  | project (computed : ProjectOver π)
  | sort (sorted : SortOver π)
  | filter (filtered : FilterOver π)

namespace Operation

variable {π ρ σ : Type}

def kind : Operation π → OperatorKind
  | semiJoin _ => .semiJoin
  | tableScan _ => .tableScan
  | ixSearch _ => .ixSearch
  | ixMerge _ => .ixMerge
  | ixIntersect _ => .ixIntersect
  | project _ => .project
  | sort _ => .sort
  | filter _ => .filter

/-- The inputs in order. -/
def inputs : Operation π → List π
  | semiJoin join => [join.lhs, join.rhs]
  | tableScan scan => scan.inputs
  | ixIntersect intersect => intersect.inputs
  | ixSearch search => [search.input]
  | ixMerge merge => [merge.input]
  | project computed => [computed.input]
  | sort sorted => [sorted.input]
  | filter filtered => [filtered.input]

/-- The operator without its inputs. -/
def operator : Operation π → Operator
  | semiJoin join => .semiJoin join.lhsKeys join.rhsKeys
  | tableScan scan => .tableScan scan.toTableScan
  | ixSearch search => .ixSearch search.source search.uniqueKey search.outer search.params
  | ixMerge merge => .ixMerge merge.params merge.ridLimit
  | ixIntersect intersect => .ixIntersect intersect.params
  | project computed => .project computed.fields
  | sort sorted => .sort sorted.keys sorted.distinct
  | filter filtered => .filter filtered.predicate

/-- The same operator with other inputs at the places of its own. -/
def withInputs (o : Operation π) (inputs : List ρ) : Except PlanError (Operation ρ) :=
  match o, inputs with
  | semiJoin join, [lhs, rhs] => .ok (semiJoin { join with lhs, rhs })
  | tableScan scan, _ => .ok (tableScan { scan with inputs })
  | ixIntersect intersect, _ => .ok (ixIntersect { intersect with inputs })
  | ixSearch search, [input] => .ok (ixSearch { search with input })
  | ixMerge merge, [input] => .ok (ixMerge { merge with input })
  | project computed, [input] => .ok (project { computed with input })
  | sort sorted, [input] => .ok (sort { sorted with input })
  | filter filtered, [input] => .ok (filter { filtered with input })
  | o, found => .error (.inputArity o.kind o.inputs.length found.length)

/-- The operator of a node over the inputs of the node. -/
def ofNode (op : Operator) (inputs : List π) : Except PlanError (Operation π) :=
  match op, inputs with
  | .semiJoin lhsKeys rhsKeys, [lhs, rhs] => .ok (semiJoin { lhs, rhs, lhsKeys, rhsKeys })
  | .tableScan scan, _ => .ok (tableScan { scan with inputs })
  | .ixIntersect params, _ => .ok (ixIntersect { inputs, params })
  | .ixSearch source uniqueKey outer params, [input] =>
    .ok (ixSearch { input, source, uniqueKey, outer, params })
  | .ixMerge params ridLimit, [input] => .ok (ixMerge { input, params, ridLimit })
  | .project fields, [input] => .ok (project { input, fields })
  | .sort keys distinct, [input] => .ok (sort { input, keys, distinct })
  | .filter predicate, [input] => .ok (filter { input, predicate })
  | op, found => .error (.inputArity op.kind (op.kind.arity?.getD 0) found.length)

theorem kind_operator (o : Operation π) : o.operator.kind = o.kind := by
  cases o <;> rfl

/-- An operation is one operator over one list of inputs. -/
theorem ofNode_eq_ok_iff {op : Operator} {inputs : List π} {o : Operation π} :
    ofNode op inputs = .ok o ↔ o.operator = op ∧ o.inputs = inputs := by
  constructor
  · intro h
    unfold ofNode at h
    split at h <;> cases h <;> exact ⟨rfl, rfl⟩
  · rintro ⟨rfl, rfl⟩
    cases o <;> rfl

/-- There is no operation exactly over a number of inputs that the operator does not take. -/
theorem ofNode_eq_error_iff {op : Operator} {inputs : List π} {e : PlanError} : ofNode op inputs = .error e ↔
    ∃ n, op.kind.arity? = some n ∧ inputs.length ≠ n ∧ e = .inputArity op.kind n inputs.length := by
  cases op with
  | tableScan scan => simp [ofNode, Operator.kind, OperatorKind.arity?]
  | ixIntersect params => simp [ofNode, Operator.kind, OperatorKind.arity?]
  | semiJoin =>
    rcases inputs with _ | ⟨x, _ | ⟨y, _ | _⟩⟩ <;>
      simp [ofNode, Operator.kind, OperatorKind.arity?, eq_comm (a := e)]
  | ixSearch | ixMerge | project | sort | filter =>
    rcases inputs with _ | ⟨x, _ | _⟩ <;>
      simp [ofNode, Operator.kind, OperatorKind.arity?, eq_comm (a := e)]

theorem ofNode_map_eq_error {op : Operator} {inputs : List π} {e : PlanError} {f : π → ρ}
    (none : ofNode op inputs = .error e) : ofNode op (inputs.map f) = .error e := by
  rw [ofNode_eq_error_iff] at none ⊢
  rwa [List.length_map]

/-- Whether an operation has the place for inputs is up to its operator. -/
theorem withInputs_eq_ofNode (o : Operation π) (inputs : List ρ) :
    o.withInputs inputs = ofNode o.operator inputs := by
  cases o with
  | tableScan scan => rfl
  | ixIntersect intersect => rfl
  | semiJoin join => rcases inputs with _ | ⟨x, _ | ⟨y, _ | _⟩⟩ <;> rfl
  | ixSearch | ixMerge | project | sort | filter => rcases inputs with _ | ⟨x, _ | _⟩ <;> rfl

end Operation

end QueryPlan
