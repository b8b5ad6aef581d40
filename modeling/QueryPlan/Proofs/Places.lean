import Mathlib.Algebra.BigOperators.Group.List.Basic
import Mathlib.Algebra.Order.Group.Multiset
import Mathlib.Tactic.Abel
import QueryPlan.Proofs.Rewriting

/-!
# Places in a tree

A subtree may stand at several places of a tree. What its nodes contribute is added up place by
place (`Plan.total`), so that a node counts as often as it stands somewhere. A rewriting of a
semijoin keeps everything the semijoin had above and below, apart from the semijoin itself and from
its row id source (`SemiJoinRule.Rewrites.total_eq`).
-/
namespace QueryPlan

namespace Plan

variable {M : Type} [AddCommMonoid M] {f : Plan → M}

/-- The sum of what the nodes contribute, place by place. -/
def total (f : Plan → M) (p : Plan) : M := (p.preorder.map f).sum

@[simp] theorem total_node (id : NodeId) (op : Operator) (inputs : List Plan) :
    (node id op inputs).total f = f (node id op inputs) + (inputs.map (total f)).sum := by
  have below : ((inputs.flatMap preorder).map f).sum = (inputs.map (total f)).sum := by
    induction inputs with
    | nil => rfl
    | cons p ps ih =>
      rw [List.flatMap_cons, List.map_append, List.sum_append, ih, List.map_cons, List.sum_cons, total]
  rw [total, preorder_node, List.map_cons, List.sum_cons, below]

theorem mem_total {α : Type} {f : Plan → Multiset α} {p : Plan} {a : α} :
    a ∈ p.total f ↔ ∃ z ∈ p.preorder, a ∈ f z := by
  unfold total
  induction p.preorder with
  | nil => simp
  | cons z zs ih => simp [ih]

theorem mem_sum_total {α : Type} {f : Plan → Multiset α} {ps : List Plan} {a : α} :
    a ∈ (ps.map (total f)).sum ↔ ∃ p ∈ ps, a ∈ p.total f := by
  induction ps with
  | nil => simp
  | cons p ps ih => simp [ih]

/-- The number of places of the tree at which a node passes the test. -/
def places (test : Plan → Bool) (p : Plan) : Nat := p.preorder.countP test

theorem places_eq_total (test : Plan → Bool) (p : Plan) :
    p.places test = p.total fun q => if test q then 1 else 0 := by
  unfold places total
  induction p.preorder with
  | nil => rfl
  | cons q qs ih =>
    rw [List.countP_cons, ih, List.map_cons, List.sum_cons]
    exact Nat.add_comm _ _

theorem places_node (test : Plan → Bool) (i : NodeId) (op : Operator) (xs : List Plan) :
    (node i op xs).places test = (if test (node i op xs) then 1 else 0) + (xs.map (places test)).sum := by
  have sums : places test = total fun q => if test q then 1 else 0 := funext (places_eq_total test)
  rw [sums, total_node]

theorem places_eq_zero {test : Plan → Bool} {p : Plan} (h : p.Everywhere fun z => test z = false) :
    p.places test = 0 := by
  rw [places, List.countP_eq_zero]
  intro z hz
  simp [h z hz]

theorem sizeOf_le_of_mem_preorder {p q : Plan} (h : q ∈ p.preorder) : sizeOf q ≤ sizeOf p := by
  induction p with
  | node i op xs ih =>
    rcases mem_preorder_node.1 h with rfl | ⟨x, hx, hq⟩
    · exact Nat.le_refl _
    · have below := List.sizeOf_lt_of_mem hx
      have inside := ih x hx hq
      simp only [node.sizeOf_spec]
      omega

/-- A node does not stand below itself. -/
theorem not_mem_preorder_of_mem_inputs {p x : Plan} (h : x ∈ p.inputs) : p ∉ x.preorder := by
  intro below
  obtain ⟨i, op, xs⟩ := p
  have inside := sizeOf_le_of_mem_preorder below
  have smaller := List.sizeOf_lt_of_mem h
  simp only [inputs_node, node.sizeOf_spec] at inside smaller
  omega

/-- Only semijoins, merges and intersections contribute. -/
structure Sparse (f : Plan → M) : Prop where
  tableScan : ∀ i s inputs, f (node i (.tableScan s) inputs) = 0
  ixSearch : ∀ i source unique outer params inputs,
    f (node i (.ixSearch source unique outer params) inputs) = 0
  project : ∀ i fields inputs, f (node i (.project fields) inputs) = 0
  sort : ∀ i keys distinct inputs, f (node i (.sort keys distinct) inputs) = 0
  filter : ∀ i predicate inputs, f (node i (.filter predicate) inputs) = 0

/-- The inputs of a scan are its row id source and the others. -/
theorem sum_inputs (g : Plan → M) (inputs : List Plan) :
    (inputs.map g).sum = (probe? inputs).elim 0 g + ((residual inputs).map g).sum := by
  unfold residual
  cases h : probe? inputs with
  | none => simp
  | some x =>
    obtain ⟨head, -⟩ := probe?_eq_some_iff.1 h
    cases inputs with
    | nil => cases head
    | cons y ys =>
      cases head
      simp

theorem SearchMerge.total_eq {params : Option GroupParams} {source : IndexSource} {keys p : Plan}
    (h : SearchMerge params source keys p) (sparse : Sparse f) : p.total f = f p + keys.total f := by
  cases h
  simp [sparse.ixSearch]

/-- An extended row id source has what was below the old one, the new search keys, and its own. -/
theorem ExtendedProbe.total_eq {source : IndexSource} {keys p : Plan} {existing : Option Plan}
    (h : ExtendedProbe source keys existing p) (sparse : Sparse f)
    (merge : ∀ i params limit inputs, f (node i (.ixMerge params limit) inputs) = 0) :
    p.total f = f p + keys.total f + existing.elim 0 fun x => (x.inputs.map (total f)).sum := by
  cases h with
  | first probe => simp [probe.total_eq sparse]
  | grown inhabited shared probe =>
    cases probe
    simp [sparse.ixSearch, merge, inputs]
    abel
  | promoted old rebuilt probe =>
    cases old
    cases rebuilt
    cases probe
    simp [sparse.ixSearch, merge, inputs]
    abel

/-- The parameters that belong to the root alone. -/
def ownParams (p : Plan) : Multiset ParamId := p.op.params

/-- The parameters of all merges and intersections, place by place. -/
def params (p : Plan) : Multiset ParamId := p.total ownParams

theorem sparse_ownParams : Sparse ownParams where
  tableScan _ _ _ := rfl
  ixSearch _ _ _ _ _ _ := rfl
  project _ _ _ := rfl
  sort _ _ _ _ := rfl
  filter _ _ _ := rfl

/-- Of the parameters of the old row id source some remain; besides those of the search keys there
are only the new ones. -/
theorem ExtendedProbe.exists_params_eq {source : IndexSource} {keys p : Plan} {existing : Option Plan}
    (h : ExtendedProbe source keys existing p) :
    ∃ kept ≤ existing.elim 0 params,
      p.params = (newParams existing p : Multiset ParamId) + keys.params + kept := by
  cases h with
  | first probe => exact ⟨0, le_rfl, by simp [params, probe.total_eq sparse_ownParams, newParams, ownParams]⟩
  | @grown i j group merges added inhabited shared probe =>
    refine ⟨(node i (.ixIntersect group) merges).params, le_rfl, ?_⟩
    have fresh : (newParams (some (node i (.ixIntersect group) merges))
        (node j (.ixIntersect group) (merges ++ [added])) : Multiset ParamId) = added.ownParams := by
      simp [newParams, Operator.kind, ownParams]
    have same : ownParams (node j (.ixIntersect group) (merges ++ [added])) =
      ownParams (node i (.ixIntersect group) merges) := rfl
    rw [fresh, params, params, params, total_node, total_node, same, List.map_append, List.sum_append,
      List.map_singleton, List.sum_singleton, probe.total_eq sparse_ownParams]
    abel
  | @promoted j group oldSource oldKeys lone again added old rebuilt probe =>
    refine ⟨oldKeys.params, ?_, ?_⟩
    · rw [Option.elim_some, params, params, old.total_eq sparse_ownParams]
      exact Multiset.le_add_left _ _
    · have fresh : (newParams (some lone) (node j (.ixIntersect group) [again, added]) : Multiset ParamId) =
          ownParams (node j (.ixIntersect group) [again, added]) + (added.ownParams + again.ownParams) := by
        cases old
        simp [newParams, Operator.kind, ownParams, ← Multiset.coe_add]
      rw [fresh, params, params, params, total_node, List.map_cons, List.map_singleton, List.sum_cons,
        List.sum_singleton, rebuilt.total_eq sparse_ownParams, probe.total_eq sparse_ownParams]
      abel

end Plan

namespace SearchKey

theorem KeyPlan.total_eq {M : Type} [AddCommMonoid M] {f : Plan → M} {keys : List SearchKey} {rhs p : Plan}
    (h : KeyPlan keys rhs p) (sparse : Plan.Sparse f) : p.total f = rhs.total f := by
  cases h <;> simp [sparse.sort, sparse.project, sparse.filter]

end SearchKey

/-- A semijoin has what its left side reads, the right side and its own. -/
theorem ScanSemiJoin.total_plan {M : Type} [AddCommMonoid M] {f : Plan → M} (m : ScanSemiJoin)
    (sparse : Plan.Sparse f) :
    m.plan.total f = f m.plan +
      ((Plan.probe? m.inputs).elim 0 (Plan.total f) + ((Plan.residual m.inputs).map (Plan.total f)).sum +
        m.rhs.total f) := by
  have lhs : m.lhs.total f =
      (Plan.probe? m.inputs).elim 0 (Plan.total f) + ((Plan.residual m.inputs).map (Plan.total f)).sum := by
    rw [ScanSemiJoin.lhs, Plan.total_node, sparse.tableScan, zero_add, Plan.sum_inputs]
  have both : m.plan.total f = f m.plan + (m.lhs.total f + (m.rhs.total f + 0)) := Plan.total_node _ _ _
  rw [both, lhs, add_zero]

namespace SemiJoinRule

open Plan

variable {r : SemiJoinRule} {m : ScanSemiJoin} {c : Candidate} {q : Plan}

/-- The new scan reads the extended row id source and the other inputs, and the search keys have what
the right side has. -/
theorem Rewrites.exists_probe (h : r.Rewrites m c q) :
    ∃ keys probe, ExtendedProbe (m.source c.index) keys (probe? m.inputs) probe ∧
      m.newParams q = newParams (probe? m.inputs) probe ∧
      ∀ {M : Type} [AddCommMonoid M] {f : Plan → M}, Sparse f →
        q.total f = probe.total f + ((residual m.inputs).map (total f)).sum ∧
          keys.total f = m.rhs.total f := by
  obtain @⟨n, keyPlan, probe, joinCols, keys, -, -, -, searched, probed, -⟩ := h
  refine ⟨keyPlan, probe, probed, rfl, fun {M} _ {f} sparse => ⟨?_, searched.total_eq sparse⟩⟩
  rw [total_node, sparse.tableScan, zero_add, List.map_cons, List.sum_cons]

/-- Of what only semijoins contribute, exactly the contribution of the semijoin itself is lost. -/
theorem Rewrites.total_eq {M : Type} [AddCommMonoid M] {f : Plan → M} (h : r.Rewrites m c q)
    (joins : ∀ p, p.kind ≠ .semiJoin → f p = 0) : m.plan.total f = f m.plan + q.total f := by
  have sparse : Sparse f := ⟨fun _ _ _ => joins _ nofun, fun _ _ _ _ _ _ => joins _ nofun,
    fun _ _ _ => joins _ nofun, fun _ _ _ _ => joins _ nofun, fun _ _ _ => joins _ nofun⟩
  have probes {p : Plan} (hp : p.isProbe = true) : f p = 0 := by
    rcases isProbe_iff.1 hp with kind | kind <;> exact joins p (by simp [kind])
  have old : (probe? m.inputs).elim 0 (total f) =
      (probe? m.inputs).elim 0 fun x => (x.inputs.map (total f)).sum := by
    cases hprobe : probe? m.inputs with
    | none => rfl
    | some x =>
      have zero := probes (probe?_eq_some_iff.1 hprobe).2
      obtain ⟨i, op, inputs⟩ := x
      simp [zero]
  obtain ⟨keys, probe, probed, -, totals⟩ := h.exists_probe
  obtain ⟨whole, keyed⟩ := totals sparse
  have extended := probed.total_eq sparse fun _ _ _ _ => joins _ nofun
  rw [m.total_plan sparse, whole, extended, probes probed.isProbe, keyed, old]
  abel

/-- Besides the parameters that the rewriting takes there are only parameters of the semijoin. -/
theorem Rewrites.exists_params_eq (h : r.Rewrites m c q) :
    ∃ kept ≤ m.plan.params, q.params = (m.newParams q : Multiset ParamId) + kept := by
  obtain ⟨keys, probe, probed, new, totals⟩ := h.exists_probe
  obtain ⟨kept, le, eq⟩ := probed.exists_params_eq
  have whole : q.params = probe.params + ((residual m.inputs).map params).sum :=
    (totals sparse_ownParams).1
  have keyed : keys.params = m.rhs.params := (totals sparse_ownParams).2
  refine ⟨kept + ((residual m.inputs).map params).sum + m.rhs.params, ?_, ?_⟩
  · have before : m.plan.params = 0 + ((probe? m.inputs).elim 0 params +
        ((residual m.inputs).map params).sum + m.rhs.params) := m.total_plan sparse_ownParams
    rw [before, zero_add]
    gcongr
  · rw [whole, eq, keyed, new]
    abel

end SemiJoinRule

end QueryPlan
