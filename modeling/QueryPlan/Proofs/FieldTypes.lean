import QueryPlan.Proofs.ExactReplacement
import QueryPlan.Proofs.Typing

/-!
# Types of replaced fields

A field reference carries the type that its field had when the reference was made, and the checks of an
operator look at its position only. So a plan that is built again over rows of other types may keep types
that its fields no longer have. It is well typed exactly if the fields that are referred to have the old
types (`Plan.wellTyped_replace_iff`), and it need not be (`Plan.not_wellTyped_of_replace`).
-/
namespace QueryPlan

namespace Scalar

variable {e : Scalar} {row row' : RowType}

/-- A well typed expression is well typed over the rows in which its fields have the types they had. -/
theorem TypedIn.typedIn_iff (h : e.TypedIn row) :
    e.TypedIn row' ↔ ∀ pos ∈ e.positions, row'.type? pos = row.type? pos := by
  constructor
  · intro h' pos hpos
    obtain ⟨type, hf⟩ := mem_positions.1 hpos
    rw [h' pos type hf, h pos type hf]
  · intro same pos type hf
    rw [same pos (mem_positions.2 ⟨type, hf⟩), h pos type hf]

/-- The type of an expression as the fields of its input give it, whatever types its references carry. -/
def typeOver? (row : RowType) : Scalar → Option SqlType
  | field pos _ => row.type? pos
  | cast _ type => some type
  | isNotNull _ | conj _ => some .boolean

theorem TypedIn.typeOver?_eq (h : e.TypedIn row) : e.typeOver? row = some e.type := by
  cases e with
  | field pos type => exact typedIn_field.1 h
  | cast | isNotNull | conj => rfl

end Scalar

namespace Plan

/-- If the plan projects its input, its row type is what the fields of the input make it. -/
def Resolved (p : Plan) : Prop :=
  ∀ fields, p.op = .project fields → ∀ x ∈ p.inputs,
    fields.map (fun f => f.expr.typeOver? x.rowType) = p.rowType.map fun f => some f.type

theorem TypedAtRoot.resolved {p : Plan} (h : p.TypedAtRoot) : p.Resolved := by
  obtain ⟨i, op, xs⟩ := p
  rintro fields rfl x hx
  rw [rowType_node, Operator.output, Operator.ownOutput?, Option.getD_some, List.map_map]
  refine List.map_congr_left fun f hf => ?_
  exact (h f.expr (List.mem_map_of_mem hf) x hx).typeOver?_eq

/-- The rows of the plan have the row type of `target`, because nothing but semijoins, sorts and filters
stands between. -/
inductive PassesOn (target : Plan) : Plan → Prop
  | self : PassesOn target target
  | above {i : NodeId} {op : Operator} {x : Plan} {xs : List Plan} (passing : op.ownOutput? = none)
      (first : PassesOn target x) : PassesOn target (node i op (x :: xs))

variable {target replacement p q : Plan} {next : NodeId}

theorem PassesOn.mem_preorder (h : target.PassesOn p) : target ∈ p.preorder := by
  induction h with
  | self => exact self_mem_preorder target
  | above _ _ ih => exact mem_preorder_node.2 (.inr ⟨_, List.mem_cons_self, ih⟩)

theorem PassesOn.rowType_eq (h : target.PassesOn p) : p.rowType = target.rowType := by
  induction h with
  | self => rfl
  | above passing _ ih => rw [rowType_node, Operator.output, passing, List.head?_cons]; exact ih

/-- The new rows come out where the old ones did. -/
theorem Replaced.rowType_of_passesOn (h : Replaced target replacement next p q) (passes : target.PassesOn p) :
    q.rowType = replacement.rowType := by
  induction passes generalizing q with
  | self =>
    cases h with
    | hit => rfl
    | kept absent => exact absurd rfl absent.root
    | rebuilt other => exact absurd rfl other
  | above passing first ih =>
    cases h with
    | hit => rfl
    | kept absent =>
      have below := (everywhere_node.1 absent).2 _ List.mem_cons_self
      exact absurd rfl (below target first.mem_preorder)
    | rebuilt _ _ inputs =>
      cases inputs with
      | cons head _ => 
        rw [rowType_node, Operator.output, passing, List.head?_cons]
        exact ih head

/-- Other rows keep their types. -/
theorem Replaced.rowType_of_not_passesOn (h : Replaced target replacement next p q)
    (alone : p.Everywhere fun z => z.id = target.id → z = target) (other : ¬target.PassesOn p) :
    q.rowType = p.rowType := by
  induction p generalizing q with
  | node i op xs ih =>
    cases h with
    | hit same =>
      have whole : node i op xs = target := alone.root same
      exact absurd (whole ▸ PassesOn.self) other
    | kept => rfl
    | rebuilt _ _ inputs =>
      cases inputs with
      | nil => rfl
      | @cons x y xs ys head _ =>
        cases passing : op.ownOutput? with
        | some row => simp [Operator.output, passing]
        | none =>
          have below : ¬target.PassesOn x := fun passes => other (.above passing passes)
          have same := ih x List.mem_cons_self head ((everywhere_node.1 alone).2 x List.mem_cons_self) below
          simp [Operator.output, passing, same]

/-- Wherever the operator reads the rows of `target`, the fields that its expressions refer to have the
same types in `replacement`. -/
def KeepsTypes (target replacement z : Plan) : Prop :=
  ∀ e ∈ z.op.scalars, ∀ x ∈ z.inputs, target.PassesOn x →
    ∀ pos ∈ e.positions, replacement.rowType.type? pos = target.rowType.type? pos

/-- Nothing is asked of a plan whose operators do not stand above the node. -/
theorem everywhere_keepsTypes (h : p.Everywhere fun z => ∀ x ∈ z.inputs, target ∉ x.preorder) :
    p.Everywhere (KeepsTypes target replacement) :=
  fun z hz _ _ x hx passes => absurd passes.mem_preorder (h z hz x hx)

/-- An operator with expressions stands over an input. -/
theorem Accepted.exists_input (h : p.Accepted) {e : Scalar} (he : e ∈ p.op.scalars) : ∃ x, x ∈ p.inputs := by
  obtain ⟨i, op, xs⟩ := p
  have one : op.kind.arity? = some 1 := by
    cases op with
    | project | filter => rfl
    | _ => cases he
  have length : (xs.map rowType).length = 1 := Operator.length_eq_of_check h one
  rw [List.length_map] at length
  exact List.exists_mem_of_length_pos (length ▸ Nat.one_pos)

/-- An operator that is built again is well typed if the fields it refers to have kept their types. -/
theorem Replaced.typedAtRoot_iff {i j : NodeId} {op : Operator} {xs ys : List Plan}
    (typed : (node i op xs).TypedAtRoot) (inputs : List.Forall₂ (Replaced target replacement next) xs ys)
    (alone : ∀ x ∈ xs, x.Everywhere fun z => z.id = target.id → z = target) :
    (node j op ys).TypedAtRoot ↔ KeepsTypes target replacement (node i op xs) := by
  constructor
  · intro typed' e he x hx passes
    obtain ⟨y, hy, replaced⟩ := exists_right_of_forall₂ inputs hx
    rw [← replaced.rowType_of_passesOn passes, ← passes.rowType_eq]
    exact (typed e he x hx).typedIn_iff.1 (typed' e he y hy)
  · intro keeps e he y hy
    obtain ⟨x, hx, replaced⟩ := exists_left_of_forall₂ inputs hy
    refine (typed e he x hx).typedIn_iff.2 fun pos hpos => ?_
    by_cases passes : target.PassesOn x
    · rw [replaced.rowType_of_passesOn passes, passes.rowType_eq]
      exact keeps e he x hx passes pos hpos
    · rw [replaced.rowType_of_not_passesOn (alone x hx) passes]

/-- The new tree is well typed if the operators that are built again are. -/
theorem Replaced.wellTyped_iff (h : Replaced target replacement next p q)
    (alone : p.Everywhere fun z => z.id = target.id → z = target) (typed : p.WellTyped)
    (new : replacement.WellTyped) : q.WellTyped ↔ p.Everywhere (KeepsTypes target replacement) := by
  induction p generalizing q with
  | node i op xs ih =>
    cases h with
    | hit same =>
      have whole : node i op xs = target := alone.root same
      subst whole
      refine iff_of_true new (everywhere_keepsTypes fun z hz x hx below => ?_)
      exact not_mem_preorder_of_mem_inputs hx (mem_preorder_trans hz below)
    | kept absent =>
      refine iff_of_true typed (everywhere_keepsTypes fun z hz x hx below => ?_)
      exact absent target (mem_preorder_trans below (mem_preorder_trans (mem_preorder_of_mem_inputs hx) hz)) rfl
    | @rebuilt _ j _ _ ys _ _ inputs =>
      obtain ⟨root, below⟩ := everywhere_node.1 typed
      have aloneBelow := (everywhere_node.1 alone).2
      have each : ∀ x ∈ xs, ∀ y, Replaced target replacement next x y →
          (y.WellTyped ↔ x.Everywhere (KeepsTypes target replacement)) :=
        fun x hx y replaced => ih x hx replaced (aloneBelow x hx) (below x hx)
      unfold WellTyped
      rw [everywhere_node, everywhere_node]
      refine and_congr (typedAtRoot_iff root inputs aloneBelow) ⟨fun h x hx => ?_, fun h y hy => ?_⟩
      · obtain ⟨y, hy, replaced⟩ := exists_right_of_forall₂ inputs hx
        exact (each x hx y replaced).1 (h y hy)
      · obtain ⟨x, hx, replaced⟩ := exists_left_of_forall₂ inputs hy
        exact (each x hx y replaced).2 (h x hx)

/-- An operator over other inputs is well typed if the fields it refers to have the types they had. -/
theorem wellTyped_rebuild_iff {ys : List Plan} (accepted : p.Accepted) (typed : p.WellTyped)
    (inputs : ∀ y ∈ ys, y.WellTyped) (h : (p.rebuild ys).Yields q) :
    q.WellTyped ↔ ∀ e ∈ p.op.scalars, ∀ x ∈ p.inputs, ∀ y ∈ ys, ∀ pos ∈ e.positions,
      y.rowType.type? pos = x.rowType.type? pos := by
  rw [accepted.rebuild_eq] at h
  obtain ⟨i, op, xs⟩ := p
  obtain ⟨-, j, rfl⟩ := yields_build h
  have root := typed.root
  refine everywhere_node.trans ((and_iff_left inputs).trans ⟨?_, ?_⟩)
  · intro typed' e he x hx y hy
    exact (root e he x hx).typedIn_iff.1 (typed' e he y hy)
  · intro same e he y hy
    obtain ⟨x, hx⟩ := accepted.exists_input he
    exact (root e he x hx).typedIn_iff.2 (same e he x hx y hy)

/-- Where a plan is built again over other inputs it is well typed exactly if every field that an operator
refers to has the type that it had in the old rows: for a replacement, wherever the rows of `target` come
through to the operator; for a single operator, in its inputs. Then the row types of projections are those
that their inputs give them. -/
theorem wellTyped_replace_iff {w : Workspace} {built : List Plan} {root target replacement : Plan}
    (holds : w.Holds built) (hroot : root ∈ built) (htarget : target ∈ built)
    (hreplacement : replacement ∈ built) (typed : root.WellTyped) (new : replacement.WellTyped) :
    (∀ q w', (replace target replacement root).Returns w q w' →
      (q.WellTyped ↔ root.Everywhere (KeepsTypes target replacement)) ∧
      (q.WellTyped → q.Everywhere Resolved)) ∧
    ∀ ys q, (∀ y ∈ ys, y.WellTyped) → (root.rebuild ys).Yields q →
      (q.WellTyped ↔ ∀ e ∈ root.op.scalars, ∀ x ∈ root.inputs, ∀ y ∈ ys, ∀ pos ∈ e.positions,
        y.rowType.type? pos = x.rowType.type? pos) ∧
      (q.WellTyped → q.Everywhere Resolved) := by
  have resolved {q : Plan} (h : q.WellTyped) : q.Everywhere Resolved := h.imp fun _ => TypedAtRoot.resolved
  have alone := holds.alone hroot htarget
  refine ⟨fun q w' returned => ⟨?_, resolved⟩, fun ys q inputs yielded => ⟨?_, resolved⟩⟩
  · by_cases ne : replacement = target
    · subst ne
      rw [replace_self alone] at returned
      obtain ⟨rfl, -⟩ := Planner.returns_pure.1 returned
      exact iff_of_true typed fun _ _ _ _ _ _ _ _ _ => rfl
    · exact (replaced_of_returns holds hroot htarget hreplacement ne returned).wellTyped_iff alone typed new
  · exact wellTyped_rebuild_iff (holds.accepted root hroot) typed inputs yielded

/-- Plans without expressions are well typed. -/
theorem wellTyped_of_scalars_eq_nil (h : ∀ z ∈ p.preorder, z.op.scalars = []) : p.WellTyped :=
  fun z hz => typedAtRoot_of_scalars_eq_nil (h z hz)

def somePairs : Plan := .node 0 (.tableScan (.ofPairs 0 [])) []

/-- The first values of some pairs. -/
def firstValues : Plan := .node 1 (.project [⟨"first", .field 0 .bigint⟩]) [somePairs]

/-- Rows of one text each. -/
def labels : Plan :=
  .node 2 (.tableScan ⟨⟨.ofNat 1, "labels", [⟨"label", .varchar 8⟩], []⟩, [], .ofNat 0, none, false⟩) []

theorem wellTyped_firstValues : firstValues.WellTyped := by
  refine everywhere_node.2 ⟨fun e he x hx => ?_, ?_⟩
  · obtain rfl := List.mem_singleton.1 he
    obtain rfl := List.mem_singleton.1 hx
    exact Scalar.typedIn_field.2 rfl
  · exact List.forall_mem_singleton.2 (wellTyped_of_scalars_eq_nil (by simp [somePairs, Operator.scalars]))

theorem wellTyped_labels : labels.WellTyped :=
  wellTyped_of_scalars_eq_nil (by simp [labels, Operator.scalars])

theorem holds_labels : ({ nextNode := 3 } : Workspace).Holds (labels :: firstValues.preorder) := by
  have holds : ({ nextNode := 2 } : Workspace).Holds firstValues.preorder := by
    apply Workspace.Holds.preorder
    · decide
    · decide
    · decide
  exact holds.cons_fresh (List.nil_subset _) rfl

theorem wellTyped_replace_firstValues :
    (∃ q w', (replace somePairs morePairs firstValues).Returns { nextNode := 4 } q w' ∧
      q.WellTyped ∧ q.Everywhere Resolved) ∧
    ∃ q, (firstValues.rebuild [morePairs]).Yields q ∧ q.WellTyped := by
  have holds : ({ nextNode := 4 } : Workspace).Holds (morePairs :: labels :: firstValues.preorder) :=
    holds_labels.cons_fresh (List.nil_subset _) rfl
  have more : morePairs.WellTyped := wellTyped_of_scalars_eq_nil (by simp [morePairs, Operator.scalars])
  have target : somePairs ∈ morePairs :: labels :: firstValues.preorder := by simp [firstValues]
  obtain ⟨replaced, rebuilt⟩ :=
    wellTyped_replace_iff holds (by simp) target List.mem_cons_self wellTyped_firstValues more
  have returned : (replace somePairs morePairs firstValues).Returns { nextNode := 4 }
      (.node 4 firstValues.op [morePairs]) { nextNode := 5 } := rfl
  have yielded : (firstValues.rebuild [morePairs]).Yields (.node 4 firstValues.op [morePairs]) :=
    ⟨{ nextNode := 4 }, { nextNode := 5 }, rfl⟩
  constructor
  · obtain ⟨typed, resolved⟩ := replaced _ _ returned
    have typed := typed.2 fun _ _ _ _ _ _ _ _ _ => rfl
    exact ⟨_, _, returned, typed, resolved typed⟩
  · obtain ⟨typed, -⟩ := rebuilt _ _ (List.forall_mem_singleton.2 more) yielded
    refine ⟨_, yielded, typed.2 fun _ _ x hx y hy _ _ => ?_⟩
    obtain rfl := List.mem_singleton.1 hx
    obtain rfl := List.mem_singleton.1 hy
    rfl

/-- The projection of the pairs is built again over the labels, and still takes their field for a number. -/
theorem not_wellTyped_of_replace :
    ({ nextNode := 3 } : Workspace).Holds (labels :: firstValues.preorder) ∧
      firstValues ∈ labels :: firstValues.preorder ∧ somePairs ∈ labels :: firstValues.preorder ∧
      firstValues.WellTyped ∧ labels.WellTyped ∧
      (∃ q w', (replace somePairs labels firstValues).Returns { nextNode := 3 } q w' ∧
        ¬q.WellTyped ∧ ¬q.Resolved) ∧
      ∃ q, (firstValues.rebuild [labels]).Yields q ∧ ¬q.WellTyped := by
  have stale : ¬(node 3 firstValues.op [labels]).WellTyped := by
    intro typed
    have first := Scalar.typedIn_field.1 (typed.root _ List.mem_cons_self labels List.mem_cons_self)
    cases first
  have unresolved : ¬(node 3 firstValues.op [labels]).Resolved := by
    intro resolved
    have types := resolved _ rfl labels List.mem_cons_self
    revert types
    decide
  refine ⟨holds_labels, by simp, by simp [firstValues], wellTyped_firstValues, wellTyped_labels, ?_, ?_⟩
  · exact ⟨_, { nextNode := 4 }, rfl, stale, unresolved⟩
  · exact ⟨_, ⟨{ nextNode := 3 }, { nextNode := 4 }, rfl⟩, stale⟩

end Plan

end QueryPlan
