import QueryPlan.Plan.Basic

/-!
# Shapes

The shape of a plan is the plan without the identities of its nodes. Two plans are structurally equal when
their shapes are equal. `Plan.alike` decides this without visiting what the plans share, which is right where
an identity stands for one shape (`Plan.alike_iff_shape_eq`).
-/
namespace QueryPlan

inductive Shape
  | node (op : Operator) (inputs : List Shape)

namespace Shape

mutual
def decEq (s t : Shape) : Decidable (s = t) :=
  match s, t with
  | .node f xs, .node g ys =>
    haveI := decEqAll xs ys
    decidable_of_iff (f = g ∧ xs = ys) (by simp)
def decEqAll (xs ys : List Shape) : Decidable (xs = ys) :=
  match xs, ys with
  | [], [] => isTrue rfl
  | x :: xs, y :: ys =>
    haveI := decEq x y
    haveI := decEqAll xs ys
    decidable_of_iff (x = y ∧ xs = ys) (by simp)
  | [], _ :: _ | _ :: _, [] => isFalse (by intro h; cases h)
end

instance : DecidableEq Shape := decEq

end Shape

namespace Plan

mutual
def shape : Plan → Shape
  | .node _ op inputs => .node op (shapes inputs)
def shapes : List Plan → List Shape
  | [] => []
  | p :: ps => p.shape :: shapes ps
end

mutual
/-- Are the two plans equal but for the identities of their nodes? A node is equal to itself, so the comparison
does not go into a subtree that the plans share. -/
def alike : Plan → Plan → Bool
  | .node i f xs, .node j g ys => i = j || f = g && alikeAll xs ys
def alikeAll : List Plan → List Plan → Bool
  | [], [] => true
  | p :: ps, q :: qs => p.alike q && alikeAll ps qs
  | [], _ :: _ | _ :: _, [] => false
end

@[simp] theorem shapes_eq_map (ps : List Plan) : shapes ps = ps.map shape := by
  induction ps with
  | nil => rfl
  | cons p ps ih => simp [shapes, ih]

@[simp] theorem shape_node (id : NodeId) (op : Operator) (inputs : List Plan) :
    (node id op inputs).shape = .node op (inputs.map shape) := by
  simp [shape]

/-- Row types do not depend on identities. -/
theorem rowType_eq_of_shape_eq (p q : Plan) (h : p.shape = q.shape) : p.rowType = q.rowType :=
  match p, q with
  | .node _ f [], .node _ g [] => by
    simp only [shape, Shape.node.injEq] at h
    rw [rowType_node, rowType_node, h.1]
  | .node _ f (x :: xs), .node _ g (y :: ys) => by
    simp only [shape, shapes, Shape.node.injEq, List.cons.injEq] at h
    rw [rowType_node, rowType_node, h.1]
    exact congrArg g.output (rowType_eq_of_shape_eq x y h.2.1)
  | .node _ _ [], .node _ _ (_ :: _) | .node _ _ (_ :: _), .node _ _ [] => by simp at h

mutual
theorem alike_of_shape_eq (p q : Plan) (h : p.shape = q.shape) : p.alike q = true :=
  match p, q with
  | .node i f xs, .node j g ys => by
    simp only [shape, Shape.node.injEq] at h
    simp [alike, h.1, alikeAll_of_shapes_eq xs ys h.2]
theorem alikeAll_of_shapes_eq (ps qs : List Plan) (h : shapes ps = shapes qs) : alikeAll ps qs = true :=
  match ps, qs with
  | [], [] => rfl
  | p :: ps, q :: qs => by
    simp only [shapes, List.cons.injEq] at h
    simp [alikeAll, alike_of_shape_eq p q h.1, alikeAll_of_shapes_eq ps qs h.2]
  | [], _ :: _ | _ :: _, [] => by simp [shapes] at h
end

mutual
theorem shape_eq_of_alike (p q : Plan)
    (one : ∀ a ∈ p.preorder, ∀ b ∈ q.preorder, a.id = b.id → a.shape = b.shape)
    (h : p.alike q = true) : p.shape = q.shape :=
  match p, q with
  | .node i f xs, .node j g ys => by
    simp only [alike, Bool.or_eq_true, Bool.and_eq_true, decide_eq_true_eq] at h
    rcases h with rfl | ⟨rfl, h⟩
    · exact one _ (by simp) _ (by simp) rfl
    · rw [preorder_node, preorder_node] at one
      rw [shape, shape, shapes_eq_of_alikeAll xs ys
        (fun a ha b hb => one a (List.mem_cons_of_mem _ ha) b (List.mem_cons_of_mem _ hb)) h]
theorem shapes_eq_of_alikeAll (ps qs : List Plan)
    (one : ∀ a ∈ ps.flatMap preorder, ∀ b ∈ qs.flatMap preorder, a.id = b.id → a.shape = b.shape)
    (h : alikeAll ps qs = true) : shapes ps = shapes qs :=
  match ps, qs with
  | [], [] => rfl
  | p :: ps, q :: qs => by
    simp only [alikeAll, Bool.and_eq_true] at h
    rw [List.flatMap_cons, List.flatMap_cons] at one
    rw [shapes, shapes,
      shape_eq_of_alike p q
        (fun a ha b hb => one a (List.mem_append_left _ ha) b (List.mem_append_left _ hb)) h.1,
      shapes_eq_of_alikeAll ps qs
        (fun a ha b hb => one a (List.mem_append_right _ ha) b (List.mem_append_right _ hb)) h.2]
  | [], _ :: _ | _ :: _, [] => by simp [alikeAll] at h
end

/-- Where an identity stands for one shape in both plans, as it does for all plans of one workspace, the
comparison decides whether the shapes are equal. -/
theorem alike_iff_shape_eq {p q : Plan}
    (one : ∀ a ∈ p.preorder, ∀ b ∈ q.preorder, a.id = b.id → a.shape = b.shape) :
    p.alike q = true ↔ p.shape = q.shape :=
  ⟨shape_eq_of_alike p q one, alike_of_shape_eq p q⟩

end Plan

end QueryPlan
