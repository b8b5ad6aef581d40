import QueryPlan.Plan.Basic

/-!
# Replacing a subtree

A node is replaced wherever it stands in a tree. The operators above it are built again over the new inputs;
whatever does not contain it is kept as it is (`Plan.replace_node`). A tree is built again from its leaves
upwards, and each new node hands its row type up to the next.
-/
namespace QueryPlan

/-- A plan within a tree that is being built, with its row type if that is at hand. -/
structure Draft where
  plan : Plan
  row? : Option RowType
  row?_eq : ∀ row ∈ row?, row = plan.rowType

namespace Draft

def row (d : Draft) : RowType :=
  match d.row? with
  | some row => row
  | none => d.plan.rowType

@[simp] theorem row_eq (d : Draft) : d.row = d.plan.rowType := by
  unfold row
  split
  · exact d.row?_eq _ ‹_›
  · rfl

/-- Builds a new node once its operator accepts the inputs. -/
def build (op : Operator) (inputs : List Draft) : Planner Draft := do
  let rows := inputs.map row
  Planner.ofExcept (op.check rows)
  return {
    plan := .node (← Planner.freshNode) op (inputs.map plan)
    row? := some (op.output (rows.headD []))
    row?_eq := by cases inputs <;> simp [rows] }

theorem plan_build (op : Operator) (inputs : List Draft) :
    plan <$> build op inputs = Plan.build op (inputs.map plan) := by
  have rows : inputs.map row = inputs.map fun d => d.plan.rowType := by simp
  simp [build, Plan.build, Function.comp_def, rows]

end Draft

namespace Plan

mutual
/-- Puts `replacement` in place of the node `target`. -/
def redraft (target : Plan) (replacement : Draft) : Plan → Planner Draft
  | p@(.node id op inputs) => do
    if id = target.id then
      return replacement
    let replaced ← redraftAll target replacement inputs
    if replaced.map (·.plan.id) = inputs.map Plan.id then
      return ⟨p, none, by simp⟩
    let own ← Planner.ofExcept p.operation
    let rebuilt ← Planner.ofExcept (own.withInputs replaced)
    Draft.build rebuilt.operator rebuilt.inputs
def redraftAll (target : Plan) (replacement : Draft) : List Plan → Planner (List Draft)
  | [] => return []
  | p :: ps => do
    let q ← redraft target replacement p
    let qs ← redraftAll target replacement ps
    return q :: qs
end

/-- Puts `replacement` in place of the node `target` wherever it stands in `root`. -/
def replace (target replacement root : Plan) : Planner Plan :=
  Draft.plan <$> redraft target ⟨replacement, some replacement.rowType, by simp⟩ root

theorem plan_redraftAll (target replacement : Plan) (inputs : List Plan) :
    List.map Draft.plan <$> redraftAll target ⟨replacement, some replacement.rowType, by simp⟩ inputs =
      inputs.mapM (replace target replacement) := by
  induction inputs with
  | nil => simp [redraftAll]
  | cons p ps ih => simp [redraftAll, List.mapM_cons, replace, ← ih]

/-- What follows on the new inputs of a node sees as many of them as there were. -/
theorem redraftAll_bind_congr {α : Type} {target : Plan} {replacement : Draft} {inputs : List Plan}
    {f g : List Draft → Planner α} (eq : ∀ xs : List Draft, xs.length = inputs.length → f xs = g xs) :
    redraftAll target replacement inputs >>= f = redraftAll target replacement inputs >>= g := by
  induction inputs generalizing f g with
  | nil => simp [redraftAll, eq]
  | cons p ps ih =>
    simp only [redraftAll, bind_assoc, pure_bind]
    refine bind_congr fun q => ih fun xs length => eq (q :: xs) ?_
    rw [List.length_cons, List.length_cons, length]

theorem replace_node (target replacement : Plan) (id : NodeId) (op : Operator) (inputs : List Plan) :
    replace target replacement (.node id op inputs) =
      if id = target.id then pure replacement
      else (do
        let replaced ← inputs.mapM (replace target replacement)
        if replaced.map Plan.id = inputs.map Plan.id then pure (.node id op inputs)
        else build op replaced) := by
  rw [← plan_redraftAll]
  unfold replace redraft
  split
  · simp
  · simp only [map_bind, bind_map_left]
    refine redraftAll_bind_congr fun replaced same => ?_
    simp only [List.map_map, Function.comp_def]
    split
    · simp
    · simp only [map_bind, Draft.plan_build]
      refine Operation.withInputs_bind_of_length (f := fun op xs => build op (xs.map Draft.plan)) same ?_
      exact fun e none => build_eq_error (Operation.ofNode_map_eq_error none)

end Plan

end QueryPlan
