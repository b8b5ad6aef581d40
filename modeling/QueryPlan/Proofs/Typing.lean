import QueryPlan.Proofs.Checks
import QueryPlan.Proofs.Nodes

/-!
# Typed expressions

A field reference carries a type. It is well typed over an input whose field at that position has
this type, and then it is in range as well. A plan is well typed when every expression of it is,
over the input it is computed from.
-/
namespace QueryPlan

namespace Scalar

/-- Every field the expression refers to has the type that the row gives it. -/
def TypedIn (e : Scalar) (row : RowType) : Prop :=
  ∀ pos type, field pos type ∈ e.subterms → row.type? pos = some type

variable {row : RowType}

theorem subtermsAll_eq_flatMap (es : List Scalar) : subtermsAll es = es.flatMap subterms := by
  induction es with
  | nil => rfl
  | cons e es ih => rw [subtermsAll, ih, List.flatMap_cons]

@[simp] theorem typedIn_field {pos : Nat} {type : SqlType} :
    (field pos type).TypedIn row ↔ row.type? pos = some type := by
  simp [TypedIn, subterms]

@[simp] theorem typedIn_cast {e : Scalar} {type : SqlType} :
    (cast e type).TypedIn row ↔ e.TypedIn row := by
  simp [TypedIn, subterms]

@[simp] theorem typedIn_isNotNull {e : Scalar} : (isNotNull e).TypedIn row ↔ e.TypedIn row := by
  simp [TypedIn, subterms]

@[simp] theorem typedIn_conj {es : List Scalar} : (conj es).TypedIn row ↔ ∀ e ∈ es, e.TypedIn row := by
  simp only [TypedIn, subterms, subtermsAll_eq_flatMap, List.mem_cons, reduceCtorEq, List.mem_flatMap,
    false_or]
  constructor
  · intro h e he pos type hf
    exact h pos type ⟨e, he, hf⟩
  · rintro h pos type ⟨e, he, hf⟩
    exact h e he pos type hf

theorem mem_positions {e : Scalar} {pos : Nat} :
    pos ∈ e.positions ↔ ∃ type, field pos type ∈ e.subterms := by
  simp only [positions, List.mem_filterMap]
  constructor
  · rintro ⟨x, hx, h⟩
    cases x <;> simp at h
    subst h
    exact ⟨_, hx⟩
  · rintro ⟨type, h⟩
    exact ⟨_, h, rfl⟩

/-- A well typed expression passes the check of its fields. -/
theorem TypedIn.checkFields {e : Scalar} (h : e.TypedIn row) : e.checkFields row = .ok () := by
  refine checkFields_eq_ok_iff.2 fun pos hpos => ?_
  obtain ⟨type, hf⟩ := mem_positions.1 hpos
  obtain ⟨f, hfield, -⟩ := Option.map_eq_some_iff.1 (h pos type hf)
  exact (List.getElem?_eq_some_iff.1 hfield).1

end Scalar

/-- The expressions that the operator evaluates on the rows of its input. -/
def Operator.scalars : Operator → List Scalar
  | .project fields => fields.map Projection.expr
  | .filter predicate => [predicate]
  | _ => []

namespace Plan

/-- The expressions of the root are well typed over its input. -/
def TypedAtRoot (p : Plan) : Prop := ∀ e ∈ p.op.scalars, ∀ x ∈ p.inputs, e.TypedIn x.rowType

/-- Every field that a projection or a filter refers to has the type of that field of its input. -/
def WellTyped (p : Plan) : Prop := p.Everywhere TypedAtRoot

theorem typedAtRoot_of_scalars_eq_nil {p : Plan} (h : p.op.scalars = []) : p.TypedAtRoot := by
  simp [TypedAtRoot, h]

/-- Only the row types of the inputs matter to the expressions over them. -/
theorem TypedAtRoot.rebuilt {i j : NodeId} {op : Operator} {xs ys : List Plan}
    (h : (node i op xs).TypedAtRoot) (rows : ys.map rowType = xs.map rowType) :
    (node j op ys).TypedAtRoot := by
  intro e he y hy
  have mem : y.rowType ∈ xs.map rowType := rows ▸ List.mem_map_of_mem hy
  obtain ⟨x, hx, same⟩ := List.mem_map.1 mem
  exact same ▸ h e he x hx

end Plan

end QueryPlan
