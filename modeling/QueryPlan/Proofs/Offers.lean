import QueryPlan.Proofs.Replacement

/-!
# What firing takes

The rules take the parameters of the alternatives they offer one after the other, so the parameters
that the replacements have over the matched plans follow each other where a counter hands them out
(`RuleSet.Paid`). Applying an
alternative takes none.
-/
namespace QueryPlan

namespace Alternative

/-- How many parameters the rule took for the alternative. -/
def paramCost (a : Alternative) : Nat :=
  a.matched.inputs.head?.elim 0 fun lhs => Plan.paramCost (Plan.probe? lhs.inputs)

/-- The parameters that the replacement has over the matched plan. -/
def newParams (a : Alternative) : List ParamId :=
  a.matched.inputs.head?.elim [] fun lhs =>
    a.replacement.inputs.head?.elim [] (Plan.newParams (Plan.probe? lhs.inputs))

end Alternative

namespace RuleSet

def paramCost (alts : List Alternative) : Nat := (alts.map Alternative.paramCost).sum

/-- The alternatives have the parameters from `next` on, and `next'` is the one after. -/
structure Paid (next : ParamId) (alts : List Alternative) (next' : ParamId) : Prop where
  params : alts.flatMap Alternative.newParams = next.consecutive (paramCost alts)
  taken : next' = next.advance (paramCost alts)

theorem paid_nil (next : ParamId) : Paid next [] next := ⟨rfl, by simp [paramCost]⟩

theorem Paid.append {next next' next'' : ParamId} {as bs : List Alternative} (first : Paid next as next')
    (rest : Paid next' bs next'') : Paid next (as ++ bs) next'' := by
  have cost : paramCost (as ++ bs) = paramCost as + paramCost bs := by simp [paramCost]
  constructor
  · rw [List.flatMap_append, first.params, rest.params, cost, Id.consecutive_add, first.taken]
  · rw [rest.taken, first.taken, Id.advance_advance, cost]

theorem paid_mapM {α β : Type} {f : α → Planner β} {out : β → List Alternative} {xs : List α} {ys : List β}
    {w w' : Workspace}
    (each : ∀ x ∈ xs, ∀ w y w', (f x).Returns w y w' → Paid w.nextParam (out y) w'.nextParam)
    (h : (xs.mapM f).Returns w ys w') : Paid w.nextParam (ys.flatMap out) w'.nextParam := by
  induction xs generalizing w ys with
  | nil =>
    obtain ⟨rfl, rfl⟩ := Planner.returns_pure.1 h
    exact paid_nil _
  | cons x xs ih =>
    rw [List.mapM_cons] at h
    obtain ⟨y, v, first, h⟩ := Planner.returns_bind.1 h
    obtain ⟨zs, v', rest, h⟩ := Planner.returns_bind.1 h
    obtain ⟨rfl, rfl⟩ := Planner.returns_pure.1 h
    rw [List.flatMap_cons]
    exact (each x (by simp) w y v first).append (ih (fun z hz => each z (by simp [hz])) rest)

theorem paid_of_offer {r : SemiJoinRule} {p : Plan} {alts : List Alternative} {w w' : Workspace}
    (h : (offer r.toRule p).Returns w alts w') : Paid w.nextParam alts w'.nextParam := by
  obtain ⟨v, q?, -, param, returned, rfl⟩ := returns_offer h
  have attempted := SemiJoinRule.attempted_of_attempt returned
  rw [param] at attempted
  cases q? with
  | none =>
    generalize w'.nextParam = next' at attempted ⊢
    cases attempted
    exact paid_nil _
  | some q =>
    cases attempted with
    | @rewritten m _ _ _ semijoin _ params taken =>
      subst semijoin
      refine ⟨?_, taken⟩
      rw [Option.map_some, Option.toList_some, List.flatMap_singleton]
      rw [ParamAllocator.issued_counter] at params
      exact params

theorem paid_of_alternatives {rules : List SemiJoinRule} {root : Plan} {alts : List Alternative}
    {w w' : Workspace} (h : (alternatives (rules.map SemiJoinRule.toRule) root).Returns w alts w') :
    Paid w.nextParam alts w'.nextParam := by
  obtain ⟨offers, v, hoffers, h⟩ := Planner.returns_bind.1 h
  obtain ⟨rfl, rfl⟩ := Planner.returns_pure.1 h
  have each : ∀ p ∈ root.preorder, ∀ w offers w',
      ((rules.map SemiJoinRule.toRule).mapM fun rule => offer rule p).Returns w offers w' →
        Paid w.nextParam offers.flatten w'.nextParam := by
    intro p _ w offers w' h
    rw [← List.flatMap_id]
    refine paid_mapM (fun rule hrule w alts w' h => ?_) h
    obtain ⟨r, -, rfl⟩ := List.mem_map.1 hrule
    exact paid_of_offer h
  rw [List.flatten_flatten, ← List.flatMap_def]
  exact paid_mapM each hoffers

end RuleSet

theorem Plan.keepsParams_replace (target replacement root : Plan) :
    (replace target replacement root).KeepsParams := by
  induction root with
  | node i op inputs ih =>
    rw [replace_node]
    split
    · exact Planner.keepsParams_pure _
    · refine (Planner.keepsParams_mapM ih).bind fun ys => ?_
      split
      · exact Planner.keepsParams_pure _
      · exact keepsParams_build _ _

end QueryPlan
