import QueryPlan.Proofs.Outcomes
import QueryPlan.Proofs.ProbePlacement
import QueryPlan.Proofs.RunTypes

/-!
# Runs do not fail

Firing a rule on a plan whose nodes accept their inputs fails only for an index with a key column
that its table does not have, or for a probe that is out of place. A run that starts without either
meets neither, so it never fails, and its plans keep their types.
-/
namespace QueryPlan

namespace Plan

/-- A search can be added to a probe that is in place. -/
theorem ProbeOf.extendable {s : TableScan} {p : Plan} (h : ProbeOf s p) (checked : p.Checked) :
    Extendable (some p) := by
  cases h with
  | @lone source keys _ probe serves =>
    have search : ∃ index, source.table.index source.index = .ok index := by
      cases probe
      have below := (everywhere_node.1 checked).2 _ (List.mem_singleton_self _)
      exact check_ixSearch.1 below.root
    obtain ⟨index, known⟩ := search
    exact .merge probe known
  | @group i params merges each =>
    refine .intersect ?_ fun x hx => ?_
    · rintro rfl
      cases checked.root
    · obtain ⟨source, keys, probe, -⟩ := each x hx
      cases probe
      simp [carries, Plan.op]

end Plan

namespace SemiJoinRule

open Plan

/-- Where probes are in place and index keys are columns of their tables, a rule does not fail. -/
theorem succeeds_attempt [ParamAllocator] {r : SemiJoinRule} {p : Plan} (checked : p.Checked)
    (placed : p.Everywhere WellProbed) (inside : p.Everywhere IndexesInside) :
    (r.toRule.attempt p).Succeeds := by
  by_cases engaged : ∃ m : ScanSemiJoin, p = m.plan ∧ r.Engages m
  · obtain ⟨m, rfl, engages⟩ := engaged
    have left := m.lhs_mem_inputs
    have indexes := Table.firstMissing?_eq_none_iff.2 ((inside.input left).root m.scan rfl)
    have extendable : Extendable (probe? m.inputs) := by
      cases hprobe : probe? m.inputs with
      | none => exact .none
      | some x =>
        have of := (placed.input left).root.scan m.scan x rfl hprobe
        exact of.extendable ((checked.input left).input (mem_of_probe?_eq_some hprobe))
    refine (engages.ends_attempt checked).succeeds fun e verdict => ?_
    cases verdict with
    | failed fails =>
      cases fails with
      | missingColumn first => exact nomatch indexes.symm.trans first
      | malformedProbe _ flawed => exact extendable.not_flawed flawed
  · exact (ends_attempt_of_not_engages engaged).succeeds nofun

end SemiJoinRule

/-- Firing semijoin rules on a checked plan does not fail if all probes are in place and all index
keys are columns of their tables. -/
theorem RuleSet.succeeds_alternatives [ParamAllocator] (rules : List SemiJoinRule) {root : Plan}
    (checked : root.Checked) (placed : root.Everywhere Plan.WellProbed) (inside : root.Everywhere Plan.IndexesInside) :
    (alternatives (rules.map SemiJoinRule.toRule) root).Succeeds := by
  have offers : ∀ p ∈ root.preorder, ∀ rule ∈ rules.map SemiJoinRule.toRule, (offer rule p).Succeeds := by
    intro p hp rule hrule
    obtain ⟨r, -, rfl⟩ := List.mem_map.1 hrule
    exact succeeds_offer (SemiJoinRule.succeeds_attempt (checked.of_mem hp) (placed.of_mem hp)
      (inside.of_mem hp))
  apply (Planner.succeeds_mapM fun p hp => Planner.succeeds_mapM (offers p hp)).bind
  intro offered _
  exact Planner.succeeds_pure _

/-- What an alternative replaces in a built plan fits, so it can be applied. -/
theorem Alternative.succeeds_apply [ParamAllocator] {w : Workspace} {built : List Plan} {root : Plan}
    (holds : w.Holds built) (hroot : root ∈ built) {rules : List SemiJoinRule} {alts : List Alternative}
    (fired : (RuleSet.alternatives (rules.map SemiJoinRule.toRule) root).Yields alts) {a : Alternative}
    (mem : a ∈ alts) : (a.apply root).Succeeds := by
  obtain ⟨found, r, m, c, matched, rewrites⟩ := RuleSet.rewrites_of_mem_alternatives fired mem
  apply Plan.succeeds_replace (holds.checked hroot)
  rw [matched] at found ⊢
  exact rewrites.fits (holds.aloneIn hroot found)

/-- A run from a plan without probes, with typed field references and with indexes on existing
columns, never fails: in every plan it reaches, rules can be fired and every alternative can be
applied, in every workspace, so no error is reported and no assertion fails. The row type stays that of
the first plan and field references keep the types of their fields. -/
theorem Run.never_fails [ParamAllocator] {w v : Workspace} {p q : Plan} (holds : w.Holds p.preorder)
    (none : ∀ x ∈ p.preorder, x.isProbe = false) (typed : p.WellTyped)
    (inside : p.Everywhere Plan.IndexesInside) (run : Run w p v q) :
    (∀ rules : List SemiJoinRule, (RuleSet.alternatives (rules.map SemiJoinRule.toRule) q).Succeeds ∧
      ∀ alts, (RuleSet.alternatives (rules.map SemiJoinRule.toRule) q).Yields alts →
        ∀ a ∈ alts, (a.apply q).Succeeds) ∧
    q.rowType = p.rowType ∧ q.WellTyped := by
  obtain ⟨built, held, hq⟩ := holds.run run
  have placed : q.ProbesPlaced :=
    run.invariant holds (Plan.probesPlaced_of_forall_not_isProbe none) fun _ _ => Plan.ProbesPlaced.step
  have sane : q.Everywhere Plan.Sane :=
    run.invariant holds (fun x hx => ⟨typed x hx, inside x hx⟩) fun _ _ => Plan.Step.sane
  have row : q.rowType = p.rowType :=
    run.invariant (P := fun x => x.rowType = p.rowType) holds rfl
      fun _ _ same step => step.rowType_eq.trans same
  refine ⟨fun rules => ⟨?_, ?_⟩, row, sane.imp fun _ => And.left⟩
  · exact RuleSet.succeeds_alternatives rules (held.checked hq) placed.nodes (sane.imp fun _ => And.right)
  · exact fun alts fired a mem => Alternative.succeeds_apply held hq fired mem

/-- After two rewrites, of which the second one groups the probes, the rules still fire, and what they
offer for the semijoin that is left can be applied. -/
theorem Run.never_fails_pairsThriceJoined :
    ∃ v q alts, Run { nextNode := 8 } .pairsThriceJoined v q ∧ q.any (·.kind = .ixIntersect) = true ∧
      (RuleSet.alternatives ((SemiJoinRule.all {}).map SemiJoinRule.toRule) q).Succeeds ∧
      (RuleSet.alternatives ((SemiJoinRule.all {}).map SemiJoinRule.toRule) q).Yields alts ∧ alts ≠ [] ∧
      (∀ a ∈ alts, (a.apply q).Succeeds) ∧ q.rowType = Plan.pairsThriceJoined.rowType ∧ q.WellTyped := by
  have typed : Plan.pairsThriceJoined.WellTyped := by
    have first : ((Operator.tableScan (.ofPairs 1 [])).output []).type? 0 = some .bigint := rfl
    simpa [Plan.WellTyped, Plan.TypedAtRoot, Plan.pairsThriceJoined, Plan.firstOfPairs, Plan.everywhere_node,
      ScanSemiJoin.ofPairs, ScanSemiJoin.plan, ScanSemiJoin.lhs, Operator.scalars] using first
  have inside : Plan.pairsThriceJoined.Everywhere Plan.IndexesInside := by
    simp only [Plan.IndexesInside, Plan.pairsThriceJoined, Plan.firstOfPairs, Plan.everywhere_node,
      ScanSemiJoin.ofPairs, ScanSemiJoin.plan, ScanSemiJoin.lhs, Plan.op_node, List.forall_mem_cons,
      List.not_mem_nil, IsEmpty.forall_iff, implies_true, and_true, Operator.tableScan.injEq, reduceCtorEq,
      forall_eq', true_and]
    decide
  obtain ⟨v, q, alts, run, group, fired, offers⟩ := Run.exists_pairsThriceJoined
  obtain ⟨rules, row, wellTyped⟩ := Run.never_fails Plan.holds_pairsThriceJoined (by decide) typed inside run
  obtain ⟨fires, applies⟩ := rules (SemiJoinRule.all {})
  exact ⟨v, q, alts, run, group, fires, fired, offers, applies alts fired, row, wellTyped⟩

end QueryPlan
