import QueryPlan.Plan.Basic

/-!
# Search keys

The plan that computes the keys an index is searched with: the distinct non-null values of the matched keys of
the right side of a semijoin, in the order of the index. If the type of any matched key differs from the left
side, all of them are cast to the types of the left side.
-/
namespace QueryPlan

/-- Discards the rows with a null at one of `positions`; without positions the input stays as it is. -/
def Plan.filterNulls (input : Plan) (positions : List Nat) : Planner Plan := do
  match ← Planner.ofExcept (Scalar.notNull? input.rowType positions) with
  | none => return input
  | some predicate => build (.filter predicate) [input]

/-- What is collected of the matched keys, each in the order of the index. -/
structure KeyLists where
  /-- The positions of the fields of the right side. -/
  positions : Array Nat := #[]
  /-- The computed columns, which are the fields of the right side as they are. -/
  fields : Array Projection := #[]
  /-- The types and the names of the left keys. -/
  types : Array SqlType := #[]
  names : Array String := #[]
  castRequired : Bool := false

namespace KeyLists

/-- Adds what belongs to join key `i`. -/
def push (lhsKeys rhsKeys : ColumnList) (lhsRow rhsRow : RowType) (lists : KeyLists) (i : Nat) :
    Except PlanError KeyLists :=
  match lhsKeys[i]?, rhsKeys[i]? with
  | some l, some r => do
    let left ← lhsRow.field l.toNat
    let expr ← Scalar.ofField rhsRow r.toNat
    return {
      positions := lists.positions.push r.toNat
      fields := lists.fields.push ⟨(rhsRow.name? r.toNat).getD "", expr⟩
      types := lists.types.push left.type
      names := lists.names.push left.name
      castRequired := lists.castRequired || expr.type != left.type }
  | _, _ => .error (.fieldOutOfRange i (min lhsKeys.length rhsKeys.length))

def collect (lhsKeys rhsKeys : ColumnList) (lhsRow rhsRow : RowType) (assignment : KeyAssignment) :
    Except PlanError KeyLists :=
  assignment.foldlM (push lhsKeys rhsKeys lhsRow rhsRow) {}

/-- Gives each column the expression at its place; columns beyond the last expression keep their own. -/
def assign : List Projection → List Scalar → List Projection
  | f :: fs, e :: es => { f with expr := e } :: assign fs es
  | fs, _ => fs

/-- The columns with every field cast to the type of its left key. -/
def cast (lists : KeyLists) : Planner (List Projection) := do
  let fields := lists.fields.toList
  Planner.report (.keysCast (fields.map (·.expr.type)) lists.types.toList)
  let target ← Planner.assert (RowType.ofParts lists.types.toList lists.names.toList)
  let exprs ← Planner.assert (Scalar.castAll target (fields.map (·.expr)))
  return assign fields exprs

end KeyLists

/-- The plan of the search keys that an assignment selects from the keys of a semijoin with right side `rhs`. -/
def SearchKey.plan (lhsKeys rhsKeys : ColumnList) (lhsRow : RowType) (rhs : Plan) (assignment : KeyAssignment) :
    Planner Plan := do
  let lists ← Planner.ofExcept (KeyLists.collect lhsKeys rhsKeys lhsRow rhs.rowType assignment)
  let fields ← if lists.castRequired then lists.cast else pure lists.fields.toList
  let filtered ← rhs.filterNulls lists.positions.toList
  let projected ← Plan.build (.project fields) [filtered]
  Plan.build (.sort (ColumnList.iota assignment.length) true) [projected]

end QueryPlan
