import QueryPlan.Proofs.Runs

/-!
# Types along a run

The search keys of a rewriting refer to fields of the right side by their types, and a rewriting has
the row type of its semijoin. So field references keep the types of their fields along a run. Scans
stay over their tables.
-/
namespace QueryPlan

namespace Plan

/-- The unclustered indexes of the table that the node scans, if it is a scan, have keys on its
columns only. -/
def IndexesInside (p : Plan) : Prop :=
  ∀ s, p.op = .tableScan s → ∀ index ∈ s.table.unclustered,
    ∀ c ∈ index.keys, c.toNat < s.table.columns.length

/-- What runs require of every node of a plan, apart from its probes. -/
def Sane (p : Plan) : Prop := p.TypedAtRoot ∧ p.IndexesInside

theorem sane_of_typedAtRoot {p : Plan} (h : p.TypedAtRoot) (scan : p.kind ≠ .tableScan) : p.Sane := by
  refine ⟨h, fun s hs => absurd ?_ scan⟩
  simp [kind, hs, Operator.kind]

theorem sane_of_scalars_eq_nil {p : Plan} (h : p.op.scalars = []) (scan : p.kind ≠ .tableScan) :
    p.Sane :=
  sane_of_typedAtRoot (typedAtRoot_of_scalars_eq_nil h) scan

theorem sane_of_isProbe {p : Plan} (h : p.isProbe = true) : p.Sane := by
  obtain ⟨i, op, inputs⟩ := p
  cases op with
  | ixMerge | ixIntersect => exact sane_of_scalars_eq_nil rfl nofun
  | semiJoin | tableScan | ixSearch | project | sort | filter => cases h

end Plan

namespace SemiJoinRule

open Plan

theorem sane_of_keyPlan {keys : List SearchKey} {rhs p : Plan} (h : SearchKey.KeyPlan keys rhs p)
    (reads : ∀ k ∈ keys, k.Reads rhs.rowType) (old : rhs.Everywhere Sane) : p.Everywhere Sane := by
  apply h.everywhere old
  · intro i e he
    refine sane_of_typedAtRoot ?_ (by rintro ⟨⟩)
    intro e' mem x hx
    obtain rfl := List.mem_singleton.1 mem
    obtain rfl := List.mem_singleton.1 hx
    exact SearchKey.typedIn_of_notNull? reads he
  · intro i x hx
    refine sane_of_typedAtRoot ?_ (by rintro ⟨⟩)
    intro e mem y hy
    obtain rfl := List.mem_singleton.1 hy
    obtain ⟨f, hf, rfl⟩ := List.mem_map.1 mem
    have row : y.rowType = rhs.rowType := by
      rcases hx with rfl | ⟨j, e, rfl⟩
      · rfl
      · simp [Operator.output, Operator.ownOutput?]
    rw [row]
    exact SearchKey.typedIn_of_mem_projections reads hf
  · intro i j cols fields x
    exact sane_of_scalars_eq_nil rfl (by rintro ⟨⟩)

theorem Rewrites.sane {r : SemiJoinRule} {m : ScanSemiJoin} {c : Candidate} {q : Plan}
    (h : r.Rewrites m c q) (old : m.plan.Everywhere Sane) : q.Everywhere Sane := by
  obtain ⟨-, -, keyed, searched, probed, -⟩ := h
  have lhs : m.lhs.Everywhere Sane := old.input m.lhs_mem_inputs
  have rhs : m.rhs.Everywhere Sane := old.input m.rhs_mem_inputs
  have inputs := (everywhere_node.1 lhs).2
  refine everywhere_node.2 ⟨⟨typedAtRoot_of_scalars_eq_nil rfl, lhs.root.2⟩, fun x hx => ?_⟩
  rcases List.mem_cons.1 hx with rfl | hx
  · apply probed.everywhere (sane_of_keyPlan searched (SearchKey.reads_of_mapM keyed) rhs)
    · intro q hq
      exact inputs q (mem_of_probe?_eq_some hq)
    · exact sane_of_isProbe probed.isProbe
    · intro params source keys x merge
      cases merge
      exact sane_of_isProbe rfl
    · intro i unique outer params
      exact sane_of_scalars_eq_nil rfl nofun
    · intro i j source unique outer unique' outer' params params' x _
      exact sane_of_scalars_eq_nil rfl nofun
  · exact inputs x (mem_of_mem_residual hx)

end SemiJoinRule

theorem Plan.Step.sane {p q : Plan} (h : p.Everywhere Plan.Sane) (step : Plan.Step p q) :
    q.Everywhere Plan.Sane := by
  obtain ⟨found, alone, rewrites, substituted⟩ := step
  apply substituted.everywhere h (rewrites.sane (h.of_mem found))
  intro i j op xs ys inside before inputs
  have fits := rewrites.fits (alone.of_mem inside)
  exact ⟨before.1.rebuilt (Substituted.map_rowType_eq inputs fun x hx => fits.input hx), before.2⟩

end QueryPlan
