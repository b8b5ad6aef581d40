import QueryPlan.Operation
import QueryPlan.Workspace

/-!
# Plans

A plan is a tree of operators in which every node has an identity. A subtree that stands at several places has
one identity at all of them, and changing a tree builds new nodes with new identities around the ones it keeps.
-/
namespace QueryPlan

namespace Operation

variable {π ρ α : Type} {op : Operator} {inputs : List π} {xs : List ρ} {f : Operator → List ρ → Planner α}

/-- A step that refuses inputs for which there is no operation is a step on the operator and the inputs. -/
theorem ofNode_bind (refuses : ∀ e, ofNode op xs = .error e → f op xs = Planner.ofExcept (.error e)) :
    (do let o ← Planner.ofExcept (ofNode op xs); f o.operator o.inputs) = f op xs := by
  cases h : ofNode op xs with
  | error e => rw [Planner.ofExcept_error_bind, refuses e h]
  | ok o =>
    obtain ⟨rfl, rfl⟩ := ofNode_eq_ok_iff.1 h
    exact Planner.ofExcept_ok_bind _ _

/-- The inputs of an operation are exchanged in a step on its operator and the new inputs. -/
theorem withInputs_bind {o : Operation π} (own : ofNode op inputs = .ok o)
    (refuses : ∀ e, ofNode op xs = .error e → f op xs = Planner.ofExcept (.error e)) :
    (do
      let o ← Planner.ofExcept (ofNode op inputs)
      let rebuilt ← Planner.ofExcept (o.withInputs xs)
      f rebuilt.operator rebuilt.inputs) = f op xs := by
  rw [own, Planner.ofExcept_ok_bind, withInputs_eq_ofNode, (ofNode_eq_ok_iff.1 own).1, ofNode_bind refuses]

/-- As many inputs as there were can be exchanged whether there is an operation or not. -/
theorem withInputs_bind_of_length (same : xs.length = inputs.length)
    (refuses : ∀ e, ofNode op xs = .error e → f op xs = Planner.ofExcept (.error e)) :
    (do
      let o ← Planner.ofExcept (ofNode op inputs)
      let rebuilt ← Planner.ofExcept (o.withInputs xs)
      f rebuilt.operator rebuilt.inputs) = f op xs := by
  cases own : ofNode op inputs with
  | ok o =>
    rw [← own]
    exact withInputs_bind own refuses
  | error e =>
    rw [Planner.ofExcept_error_bind, refuses e]
    rw [ofNode_eq_error_iff] at own ⊢
    rwa [same]

end Operation

inductive Plan
  | node (id : NodeId) (op : Operator) (inputs : List Plan)

namespace Plan

def id : Plan → NodeId
  | node id _ _ => id

def op : Plan → Operator
  | node _ op _ => op

def inputs : Plan → List Plan
  | node _ _ inputs => inputs

def kind (p : Plan) : OperatorKind := p.op.kind

def isProbe (p : Plan) : Bool := p.op.isProbe

/-- Are the two plans one node? -/
def same (p q : Plan) : Bool := p.id = q.id

/-- The row type of a plan, which its operator derives from the first input. -/
def rowType : Plan → RowType
  | node _ op [] => op.output []
  | node _ op (p :: _) =>
    match op.ownOutput? with
    | some row => row
    | none => p.rowType

mutual
/-- Every node of the tree in pre-order, and then `rest`. -/
def preorderOnto (rest : List Plan) : Plan → List Plan
  | node id op inputs => node id op inputs :: preorderAllOnto rest inputs
def preorderAllOnto (rest : List Plan) : List Plan → List Plan
  | [] => rest
  | p :: ps => p.preorderOnto (preorderAllOnto rest ps)
end

/-- Every node of the tree in pre-order. -/
def preorder (p : Plan) : List Plan := p.preorderOnto []

mutual
/-- Does some node of the tree pass the test? -/
def any (test : Plan → Bool) : Plan → Bool
  | node id op inputs => test (node id op inputs) || anyAll test inputs
def anyAll (test : Plan → Bool) : List Plan → Bool
  | [] => false
  | p :: ps => p.any test || anyAll test ps
end

/-- Follows a path of input positions down from a plan. -/
def descend? : Plan → List Nat → Option Plan
  | p, [] => some p
  | p, i :: path =>
    match p.inputs[i]? with
    | some q => descend? q path
    | none => none

/-- Builds a new node once its operator accepts the inputs. -/
def build (op : Operator) (inputs : List Plan) : Planner Plan := do
  Planner.ofExcept (op.check (inputs.map rowType))
  return node (← Planner.freshNode) op inputs

/-- The operator of the plan over its inputs. -/
def operation (p : Plan) : Except PlanError (Operation Plan) :=
  Operation.ofNode p.op p.inputs

/-- Builds the same operator over other inputs. -/
def rebuild (p : Plan) (inputs : List Plan) : Planner Plan := do
  let own ← Planner.ofExcept p.operation
  let rebuilt ← Planner.ofExcept (own.withInputs inputs)
  build rebuilt.operator rebuilt.inputs

/-- Where there is no operation over the inputs, the operator refuses them in the same way. -/
theorem build_eq_error {op : Operator} {inputs : List Plan} {e : PlanError}
    (none : Operation.ofNode op inputs = .error e) : build op inputs = Planner.ofExcept (.error e) := by
  obtain ⟨n, arity, other, rfl⟩ := Operation.ofNode_eq_error_iff.1 none
  unfold build
  rw [Operator.check_eq_inputArity arity (by simpa using other), List.length_map]
  rfl

theorem rebuild_eq_of_operation {p : Plan} {o : Operation Plan} (own : p.operation = .ok o)
    (inputs : List Plan) : p.rebuild inputs = build p.op inputs :=
  Operation.withInputs_bind own fun _ => build_eq_error

theorem rebuild_eq_of_length {p : Plan} {inputs : List Plan} (same : inputs.length = p.inputs.length) :
    p.rebuild inputs = build p.op inputs :=
  Operation.withInputs_bind_of_length same fun _ => build_eq_error

/-- The row id source of a scan over `inputs`. -/
def probe? (inputs : List Plan) : Option Plan := inputs.head?.filter isProbe

/-- The inputs of a scan that are not its row id source. -/
def residual (inputs : List Plan) : List Plan :=
  if (probe? inputs).isSome then inputs.tail else inputs

mutual
theorem preorderOnto_eq_append (rest : List Plan) (p : Plan) : p.preorderOnto rest = p.preorder ++ rest :=
  match p with
  | node id op inputs => by
    simp [preorder, preorderOnto, preorderAllOnto_eq_append rest inputs, preorderAllOnto_eq_append [] inputs]
theorem preorderAllOnto_eq_append (rest : List Plan) (ps : List Plan) :
    preorderAllOnto rest ps = ps.flatMap preorder ++ rest :=
  match ps with
  | [] => rfl
  | p :: ps => by
    simp [preorderAllOnto, preorderAllOnto_eq_append rest ps, preorderOnto_eq_append _ p]
end

@[simp] theorem preorder_node (id : NodeId) (op : Operator) (inputs : List Plan) :
    (node id op inputs).preorder = node id op inputs :: inputs.flatMap preorder := by
  simp [preorder, preorderOnto, preorderAllOnto_eq_append]

mutual
theorem any_eq_preorder_any (test : Plan → Bool) (p : Plan) : p.any test = p.preorder.any test :=
  match p with
  | node id op inputs => by
    rw [any, preorder_node, List.any_cons, anyAll_eq_preorder_any test inputs]
theorem anyAll_eq_preorder_any (test : Plan → Bool) (ps : List Plan) :
    anyAll test ps = (ps.flatMap preorder).any test :=
  match ps with
  | [] => rfl
  | p :: ps => by
    rw [anyAll, List.flatMap_cons, List.any_append, any_eq_preorder_any test p, anyAll_eq_preorder_any test ps]
end

@[simp] theorem rowType_node (id : NodeId) (op : Operator) (inputs : List Plan) :
    (node id op inputs).rowType = op.output (inputs.head?.elim [] rowType) := by
  cases inputs with
  | nil => rfl
  | cons p ps => cases h : op.ownOutput? <;> simp [rowType, Operator.output, h]

end Plan

end QueryPlan
