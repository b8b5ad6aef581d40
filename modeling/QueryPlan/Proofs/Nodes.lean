import QueryPlan.Proofs.Checks
import QueryPlan.Proofs.Planning

/-!
# Nodes of a plan

Properties of plans are mostly properties of their nodes. A property that holds everywhere in a plan
holds at its root and everywhere in the inputs (`Plan.everywhere_node`). What `Plan.build`
guarantees of a new node is that its operator accepts its inputs; in a checked plan this holds
everywhere.
-/
namespace QueryPlan.Plan

/-- A property holds of every plan if each node inherits it from its inputs. -/
@[elab_as_elim, induction_eliminator]
theorem induction {motive : Plan → Prop}
    (node : ∀ id op inputs, (∀ p ∈ inputs, motive p) → motive (.node id op inputs)) (p : Plan) : motive p :=
  @Plan.rec motive (fun ps => ∀ p ∈ ps, motive p) node (by simp)
    (fun _ _ head tail => List.forall_mem_cons.2 ⟨head, tail⟩) p

@[simp] theorem id_node (i : NodeId) (op : Operator) (inputs : List Plan) : (node i op inputs).id = i := rfl

@[simp] theorem op_node (i : NodeId) (op : Operator) (inputs : List Plan) : (node i op inputs).op = op := rfl

@[simp] theorem inputs_node (i : NodeId) (op : Operator) (xs : List Plan) : (node i op xs).inputs = xs := rfl

@[simp] theorem kind_node (i : NodeId) (op : Operator) (inputs : List Plan) :
    (node i op inputs).kind = op.kind := rfl

theorem mem_preorder_node {q : Plan} {id : NodeId} {op : Operator} {inputs : List Plan} :
    q ∈ (node id op inputs).preorder ↔ q = node id op inputs ∨ ∃ p ∈ inputs, q ∈ p.preorder := by
  simp

@[simp] theorem self_mem_preorder (p : Plan) : p ∈ p.preorder := by
  cases p
  simp

theorem mem_preorder_of_mem_inputs {p q : Plan} (h : q ∈ p.inputs) : q ∈ p.preorder := by
  cases p
  exact mem_preorder_node.2 (.inr ⟨q, h, self_mem_preorder q⟩)

theorem mem_preorder_trans {a b c : Plan} (hab : a ∈ b.preorder) (hbc : b ∈ c.preorder) :
    a ∈ c.preorder := by
  induction c with
  | node id op inputs ih =>
    rcases mem_preorder_node.1 hbc with rfl | ⟨p, hp, hbp⟩
    · exact hab
    · exact mem_preorder_node.2 (.inr ⟨p, hp, ih p hp hbp⟩)

theorem descend?_cons_eq_some_iff {z : Plan} {i : NodeId} {op : Operator} {xs : List Plan} {n : Nat}
    {path : List Nat} :
    (node i op xs).descend? (n :: path) = some z ↔ ∃ x, xs[n]? = some x ∧ x.descend? path = some z := by
  rw [descend?, inputs_node]
  cases xs[n]? <;> simp

theorem mem_preorder_of_descend? {p z : Plan} {path : List Nat} (h : p.descend? path = some z) :
    z ∈ p.preorder := by
  induction path generalizing p with
  | nil =>
    obtain rfl := Option.some.inj h
    exact self_mem_preorder p
  | cons n path ih =>
    obtain ⟨i, op, xs⟩ := p
    obtain ⟨x, hx, below⟩ := descend?_cons_eq_some_iff.1 h
    exact mem_preorder_node.2 (.inr ⟨x, List.mem_of_getElem? hx, ih below⟩)

theorem descend?_append {p z : Plan} {before after : List Nat} (h : p.descend? before = some z) :
    p.descend? (before ++ after) = z.descend? after := by
  induction before generalizing p with
  | nil =>
    obtain rfl := Option.some.inj h
    rfl
  | cons n before ih =>
    obtain ⟨i, op, xs⟩ := p
    obtain ⟨x, hx, below⟩ := descend?_cons_eq_some_iff.1 h
    rw [List.cons_append, descend?, inputs_node, hx]
    exact ih below

/-- The property holds of every node of the plan. -/
def Everywhere (P : Plan → Prop) (p : Plan) : Prop := ∀ q ∈ p.preorder, P q

variable {P Q : Plan → Prop}

theorem everywhere_node {id : NodeId} {op : Operator} {inputs : List Plan} :
    (node id op inputs).Everywhere P ↔ P (node id op inputs) ∧ ∀ p ∈ inputs, p.Everywhere P := by
  simp only [Everywhere, mem_preorder_node]
  constructor
  · intro h
    exact ⟨h _ (.inl rfl), fun p hp q hq => h q (.inr ⟨p, hp, hq⟩)⟩
  · rintro ⟨root, below⟩ q (rfl | ⟨p, hp, hq⟩)
    · exact root
    · exact below p hp q hq

theorem Everywhere.root {p : Plan} (h : p.Everywhere P) : P p := h p (self_mem_preorder p)

theorem Everywhere.of_mem {p q : Plan} (h : p.Everywhere P) (hq : q ∈ p.preorder) : q.Everywhere P :=
  fun a ha => h a (mem_preorder_trans ha hq)

theorem Everywhere.input {p q : Plan} (h : p.Everywhere P) (hq : q ∈ p.inputs) : q.Everywhere P :=
  h.of_mem (mem_preorder_of_mem_inputs hq)

theorem Everywhere.imp {p : Plan} (h : p.Everywhere P) (himp : ∀ q, P q → Q q) : p.Everywhere Q :=
  fun q hq => himp q (h q hq)

/-- The operator at the root accepts the inputs it stands over. -/
def Accepted (p : Plan) : Prop := p.op.check (p.inputs.map rowType) = .ok ()

/-- Every operator of the plan accepts its inputs, as in every plan put together by `Plan.build`. -/
def Checked (p : Plan) : Prop := p.Everywhere Accepted

instance (p : Plan) : Decidable p.Accepted := inferInstanceAs (Decidable (_ = _))

instance (p : Plan) : Decidable p.Checked := inferInstanceAs (Decidable (∀ q ∈ p.preorder, q.Accepted))

theorem Accepted.length_inputs {p : Plan} (h : p.Accepted) {n : Nat} (arity : p.kind.arity? = some n) :
    p.inputs.length = n :=
  (List.length_map _).symm.trans (Operator.length_eq_of_check h arity)

/-- A plan whose operator accepts its inputs is an operation over these. -/
theorem Accepted.exists_operation {p : Plan} (h : p.Accepted) : ∃ o, p.operation = .ok o := by
  cases own : p.operation with
  | ok o => exact ⟨o, rfl⟩
  | error e =>
    obtain ⟨n, arity, other, -⟩ := Operation.ofNode_eq_error_iff.1 own
    exact absurd (h.length_inputs arity) other

theorem Accepted.rebuild_eq {p : Plan} (h : p.Accepted) (inputs : List Plan) :
    p.rebuild inputs = build p.op inputs := by
  obtain ⟨o, own⟩ := h.exists_operation
  exact rebuild_eq_of_operation own inputs

theorem returns_build {op : Operator} {inputs : List Plan} {w w' : Workspace} {p : Plan} :
    (build op inputs).Returns w p w' ↔
      op.check (inputs.map rowType) = .ok () ∧ p = node w.nextNode op inputs ∧
        w' = { w with nextNode := w.nextNode + 1 } := by
  unfold build
  simp only [Planner.returns_bind, Planner.returns_ofExcept, Planner.returns_freshNode,
    Planner.returns_pure]
  constructor
  · rintro ⟨_, _, ⟨check, rfl⟩, _, _, ⟨rfl, rfl⟩, rfl, rfl⟩
    exact ⟨check, rfl, rfl⟩
  · rintro ⟨check, rfl, rfl⟩
    exact ⟨(), w, ⟨check, rfl⟩, _, _, ⟨rfl, rfl⟩, rfl, rfl⟩

/-- A plan that was built consists of a new identity, the operator and the inputs. -/
theorem yields_build {op : Operator} {inputs : List Plan} {p : Plan} (h : (build op inputs).Yields p) :
    op.check (inputs.map rowType) = .ok () ∧ ∃ id, p = node id op inputs := by
  obtain ⟨w, w', h⟩ := h
  obtain ⟨check, rfl, -⟩ := returns_build.1 h
  exact ⟨check, w.nextNode, rfl⟩

theorem succeeds_build {op : Operator} {inputs : List Plan}
    (check : op.check (inputs.map rowType) = .ok ()) : (build op inputs).Succeeds :=
  fun _ => ⟨_, _, returns_build.2 ⟨check, rfl, rfl⟩⟩

theorem fails_build {op : Operator} {inputs : List Plan} {w w' : Workspace} {e : PlanError} :
    (build op inputs).Fails w e w' ↔ op.check (inputs.map rowType) = .error e ∧ w' = w := by
  unfold build
  rw [Planner.fails_bind, Planner.fails_ofExcept]
  constructor
  · rintro (refused | ⟨_, v, -, failed⟩)
    · exact refused
    · cases failed
  · exact .inl

theorem ends_build_error {op : Operator} {inputs : List Plan} {e : PlanError}
    (refused : op.check (inputs.map rowType) = .error e) : (build op inputs).Ends (· = .error e) :=
  Planner.ends_error_bind (refused ▸ Planner.ends_ofExcept) rfl

theorem isProbe_iff {p : Plan} : p.isProbe = true ↔ p.kind = .ixMerge ∨ p.kind = .ixIntersect := by
  obtain ⟨i, op, inputs⟩ := p
  cases op <;> simp [isProbe, Operator.isProbe, kind, Plan.op, Operator.kind]

theorem probe?_eq_some_iff {inputs : List Plan} {x : Plan} :
    probe? inputs = some x ↔ inputs[0]? = some x ∧ x.isProbe = true := by
  rw [probe?, Option.filter_eq_some_iff, List.head?_eq_getElem?]

theorem mem_of_probe?_eq_some {inputs : List Plan} {x : Plan} (h : probe? inputs = some x) :
    x ∈ inputs :=
  List.mem_of_getElem? (probe?_eq_some_iff.1 h).1

theorem mem_of_mem_residual {inputs : List Plan} {x : Plan} (h : x ∈ residual inputs) : x ∈ inputs := by
  unfold residual at h
  split at h
  · exact List.mem_of_mem_tail h
  · exact h

end QueryPlan.Plan
