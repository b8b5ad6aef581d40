import QueryPlan.Plan.Replace
import QueryPlan.Proofs.Nodes

/-!
# Substitution

What replacing a node does to a tree, node by node. A node gives way to the replacement, or it is
kept, or its operator is built again over inputs that went through the same. If the replacement has
the row type of what it replaces, every row type stays as it was, so no operator refuses its new
inputs and the replacement succeeds.
-/
namespace QueryPlan.Plan

/-- `Substituted target replacement p q`: replacing `target` may turn `p` into `q`. -/
inductive Substituted (target replacement : Plan) : Plan → Plan → Prop
  | hit {p : Plan} (same : p.id = target.id) : Substituted target replacement p replacement
  | kept (p : Plan) : Substituted target replacement p p
  | rebuilt {i j : NodeId} {op : Operator} {xs ys : List Plan}
      (inputs : List.Forall₂ (Substituted target replacement) xs ys) :
      Substituted target replacement (node i op xs) (node j op ys)

/-- The replacement has the row type of every node that gives way to it in `p`. -/
def Fits (target replacement p : Plan) : Prop :=
  ∀ z ∈ p.preorder, z.id = target.id → z.rowType = replacement.rowType

variable {target replacement : Plan}

theorem Fits.of_mem {p q : Plan} (h : Fits target replacement p) (hq : q ∈ p.preorder) :
    Fits target replacement q :=
  fun z hz => h z (mem_preorder_trans hz hq)

theorem Fits.input {i : NodeId} {op : Operator} {xs : List Plan} {x : Plan}
    (h : Fits target replacement (node i op xs)) (hx : x ∈ xs) : Fits target replacement x :=
  h.of_mem (mem_preorder_of_mem_inputs hx)

theorem yields_replace {p q : Plan} (h : (replace target replacement p).Yields q) :
    Substituted target replacement p q := by
  induction p generalizing q with
  | node i op xs ih =>
    rw [replace_node] at h
    split at h
    · next same =>
      obtain rfl := Planner.yields_pure.1 h
      exact .hit same
    · obtain ⟨ys, hys, h⟩ := Planner.yields_bind h
      split at h
      · obtain rfl := Planner.yields_pure.1 h
        exact .kept _
      · obtain ⟨-, j, rfl⟩ := yields_build h
        exact .rebuilt (forall₂_imp_of_mem (Planner.yields_mapM hys) fun x hx y hy => ih x hx hy)

theorem rowType_eq_output (i : NodeId) (op : Operator) (inputs : List Plan) :
    (node i op inputs).rowType = op.output ((inputs.map rowType).headD []) := by
  cases inputs <;> simp

/-- A fitting replacement leaves the row type of the whole tree as it was. -/
theorem Substituted.rowType_eq {p q : Plan} (h : Substituted target replacement p q)
    (fits : Fits target replacement p) : q.rowType = p.rowType := by
  induction p generalizing q with
  | node i op xs ih =>
    cases h with
    | hit same => exact (fits _ (self_mem_preorder _) same).symm
    | kept => rfl
    | @rebuilt _ j _ _ ys inputs =>
      have rows : ys.map rowType = xs.map rowType :=
        map_eq_map_of_forall₂ (forall₂_imp_of_mem inputs fun x hx y hy => ih x hx hy (fits.input hx))
      rw [rowType_eq_output, rowType_eq_output, rows]

theorem Substituted.map_rowType_eq {xs ys : List Plan}
    (h : List.Forall₂ (Substituted target replacement) xs ys)
    (fits : ∀ x ∈ xs, Fits target replacement x) : ys.map rowType = xs.map rowType :=
  map_eq_map_of_forall₂ (forall₂_imp_of_mem h fun x hx _ hy => hy.rowType_eq (fits x hx))

/-- A property of nodes spreads over the new tree if it holds in the old tree and in the replacement
and if an operator that is built again keeps it. -/
theorem Substituted.everywhere {P : Plan → Prop} {p q : Plan} (h : Substituted target replacement p q)
    (old : p.Everywhere P) (new : replacement.Everywhere P)
    (again : ∀ i j op xs ys, node i op xs ∈ p.preorder → P (node i op xs) →
      List.Forall₂ (Substituted target replacement) xs ys → P (node j op ys)) : q.Everywhere P := by
  induction p generalizing q with
  | node i op xs ih =>
    cases h with
    | hit => exact new
    | kept => exact old
    | @rebuilt _ j _ _ ys inputs =>
      refine everywhere_node.2 ⟨again i j op xs ys (self_mem_preorder _) old.root inputs, ?_⟩
      intro y hy
      obtain ⟨x, hx, hxy⟩ := exists_left_of_forall₂ inputs hy
      have inside : ∀ z ∈ x.preorder, z ∈ (node i op xs).preorder :=
        fun z hz => mem_preorder_node.2 (.inr ⟨x, hx, hz⟩)
      have oldInput := (everywhere_node.1 old).2 x hx
      exact ih x hx hxy oldInput fun i j op zs ys hz => again i j op zs ys (inside _ hz)

/-- In a checked tree the operators take back inputs whose row types did not change. -/
theorem succeeds_replace {p : Plan} (checked : p.Checked) (fits : Fits target replacement p) :
    (replace target replacement p).Succeeds := by
  induction p with
  | node i op xs ih =>
    rw [replace_node]
    split
    · exact Planner.succeeds_pure _
    · have inputs : (xs.mapM (replace target replacement)).Succeeds :=
        Planner.succeeds_mapM fun x hx => ih x hx ((everywhere_node.1 checked).2 x hx) (fits.input hx)
      apply inputs.bind
      intro ys hys
      split
      · exact Planner.succeeds_pure _
      · apply succeeds_build
        rw [Substituted.map_rowType_eq ((Planner.yields_mapM hys).imp fun _ _ => yields_replace)
          fun x hx => fits.input hx]
        exact checked.root

end QueryPlan.Plan
