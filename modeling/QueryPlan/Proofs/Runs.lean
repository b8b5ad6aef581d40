import QueryPlan.Proofs.Identity

/-!
# Optimization runs

A run fires semijoin rules on a plan and applies one of the alternatives it is offered, as often as
it likes. Each time a semijoin of the plan gives way to a rewriting of it (`Plan.Step`), and nothing
else does, because no other node has its identity. What one such step preserves, a whole run
preserves (`Run.invariant`).
-/
namespace QueryPlan

/-- No other node of the plan has the identity of the semijoin. -/
def ScanSemiJoin.AloneIn (m : ScanSemiJoin) (p : Plan) : Prop :=
  ∀ z ∈ p.preorder, z.id = m.plan.id → z = m.plan

theorem ScanSemiJoin.AloneIn.of_mem {m : ScanSemiJoin} {p q : Plan} (h : m.AloneIn p)
    (hq : q ∈ p.preorder) : m.AloneIn q :=
  fun z hz => h z (Plan.mem_preorder_trans hz hq)

theorem SemiJoinRule.Rewrites.rowType_eq {r : SemiJoinRule} {m : ScanSemiJoin} {c : Candidate} {q : Plan}
    (h : r.Rewrites m c q) : q.rowType = m.scan.rowType := by
  cases h
  simp [Operator.output, Operator.ownOutput?]

theorem SemiJoinRule.Rewrites.kind_eq {r : SemiJoinRule} {m : ScanSemiJoin} {c : Candidate} {q : Plan}
    (h : r.Rewrites m c q) : q.kind = .tableScan := by
  cases h
  rfl

/-- A rewriting fits in place of its semijoin. -/
theorem SemiJoinRule.Rewrites.fits {r : SemiJoinRule} {m : ScanSemiJoin} {c : Candidate} {p q : Plan}
    (h : r.Rewrites m c q) (alone : m.AloneIn p) : Plan.Fits m.plan q p := by
  intro z hz same
  rw [alone z hz same, m.rowType_plan, h.rowType_eq]

theorem Workspace.Holds.aloneIn {w : Workspace} {built : List Plan} (h : w.Holds built) {p : Plan}
    (hp : p ∈ built) {m : ScanSemiJoin} (found : m.plan ∈ p.preorder) : m.AloneIn p :=
  h.alone hp (h.preorder_subset hp found)

namespace RuleSet

/-- An alternative is what one of the rules returned when it was tried on a node of the plan. -/
theorem attempt_of_mem_alternatives {rules : RuleSet} {root : Plan} {alts : List Alternative}
    (h : (alternatives rules root).Yields alts) {a : Alternative} (ha : a ∈ alts) :
    a.matched ∈ root.preorder ∧ ∃ rule ∈ rules, (rule.attempt a.matched).Yields (some a.replacement) := by
  obtain ⟨offers, hoffers, h⟩ := Planner.yields_bind h
  obtain rfl := Planner.yields_pure.1 h
  obtain ⟨as, has, ha⟩ := List.mem_flatten.1 ha
  obtain ⟨ass, hass, has⟩ := List.mem_flatten.1 has
  obtain ⟨p, hp, hass⟩ := exists_left_of_forall₂ (Planner.yields_mapM hoffers) hass
  obtain ⟨rule, hrule, has⟩ := exists_left_of_forall₂ (Planner.yields_mapM hass) has
  obtain ⟨w, w', has⟩ := has
  obtain ⟨v, q?, -, -, attempted, rfl⟩ := returns_offer has
  cases q? with
  | none => cases ha
  | some q =>
    obtain rfl := List.mem_singleton.1 ha
    exact ⟨hp, rule, hrule, attempted.yields⟩

/-- An alternative stems from a rule that rewrites a semijoin of the plan. -/
theorem rewrites_of_mem_alternatives [ParamAllocator] {rules : List SemiJoinRule} {root : Plan}
    {alts : List Alternative} (h : (alternatives (rules.map SemiJoinRule.toRule) root).Yields alts) {a : Alternative}
    (ha : a ∈ alts) :
    a.matched ∈ root.preorder ∧
      ∃ r m c, a.matched = m.plan ∧ SemiJoinRule.Rewrites r m c a.replacement := by
  obtain ⟨found, rule, hrule, attempted⟩ := attempt_of_mem_alternatives h ha
  obtain ⟨r, -, rfl⟩ := List.mem_map.1 hrule
  obtain ⟨m, c, matched, rewrites⟩ := SemiJoinRule.rewrites_of_attempt attempted
  exact ⟨found, r, m, c, matched, rewrites⟩

end RuleSet

namespace Plan

/-- One step of a run: the plan `q` results from putting a rewriting in place of a semijoin of `p`. -/
inductive Step (p q : Plan) : Prop
  | intro {r : SemiJoinRule} {m : ScanSemiJoin} {c : Candidate} {replacement : Plan}
      (found : m.plan ∈ p.preorder) (alone : m.AloneIn p)
      (rewrites : r.Rewrites m c replacement) (substituted : Substituted m.plan replacement p q) : Step p q

theorem Step.rowType_eq {p q : Plan} (h : Step p q) : q.rowType = p.rowType := by
  obtain ⟨-, alone, rewrites, substituted⟩ := h
  exact substituted.rowType_eq (rewrites.fits alone)

end Plan

/-- `Run w p v q`: a run that starts with the plan `p` in the workspace `w` may reach the plan `q`
and then leaves the workspace `v`. Between its steps other planning may take identities and use any
parameters. The allocator of the parameters is the same all along. -/
inductive Run [ParamAllocator] (w : Workspace) (p : Plan) : Workspace → Plan → Prop
  | start : Run w p w p
  | step {v u u' t t' : Workspace} {q q' : Plan} {rules : List SemiJoinRule} {alts : List Alternative}
      {a : Alternative} (run : Run w p v q) (before : v.nextNode ≤ u.nextNode)
      (fired : (RuleSet.alternatives (rules.map SemiJoinRule.toRule) q).Returns u alts u') (mem : a ∈ alts)
      (between : u'.nextNode ≤ t.nextNode) (applied : (a.apply q).Returns t q' t') : Run w p t' q'

/-- Firing and applying takes a step, and the workspace then knows the new plan. -/
theorem step_of_apply [ParamAllocator] {u u' t t' : Workspace} {q q' : Plan} {rules : List SemiJoinRule}
    {alts : List Alternative} {a : Alternative} {built : List Plan} (holds : u.Holds built)
    (hq : q ∈ built)
    (fired : (RuleSet.alternatives (rules.map SemiJoinRule.toRule) q).Returns u alts u') (mem : a ∈ alts)
    (between : u'.nextNode ≤ t.nextNode) (applied : (a.apply q).Returns t q' t') :
    Plan.Step q q' ∧ ∃ built', t'.Holds built' ∧ q' ∈ built' := by
  obtain ⟨found, r, m, c, matched, rewrites⟩ := RuleSet.rewrites_of_mem_alternatives fired.yields mem
  obtain ⟨built₁, holds₁, keeps₁, has₁⟩ :=
    RuleSet.grows_alternatives rules q u alts u' built fired holds (by simpa)
  have known : [a.replacement, q] ⊆ built₁ :=
    List.cons_subset.2 ⟨has₁ (List.mem_map_of_mem mem), by simpa using keeps₁ hq⟩
  obtain ⟨built₂, holds₂, -, has₂⟩ :=
    Plan.grows_replace _ _ q t q' t' built₁ applied (holds₁.mono between) known
  refine ⟨?_, built₂, holds₂, has₂ (List.mem_singleton_self q')⟩
  have substituted := Plan.yields_replace applied.yields
  rw [matched] at found substituted
  exact .intro found (holds.aloneIn hq found) rewrites substituted

theorem Workspace.Holds.run [ParamAllocator] {w v : Workspace} {p q : Plan} (holds : w.Holds p.preorder)
    (run : Run w p v q) :
    ∃ built, v.Holds built ∧ q ∈ built := by
  induction run with
  | start => exact ⟨p.preorder, holds, p.self_mem_preorder⟩
  | step _ before fired mem between applied ih =>
    obtain ⟨built, held, hq⟩ := ih
    exact (step_of_apply (held.mono before) hq fired mem between applied).2

/-- What every step preserves, a run preserves. -/
theorem Run.invariant [ParamAllocator] {P : Plan → Prop} {w v : Workspace} {p q : Plan} (run : Run w p v q)
    (holds : w.Holds p.preorder) (start : P p) (step : ∀ q q', P q → Plan.Step q q' → P q') : P q := by
  induction run with
  | start => exact start
  | step run before fired mem between applied ih =>
    obtain ⟨built, held, hq⟩ := holds.run run
    exact step _ _ ih (step_of_apply (held.mono before) hq fired mem between applied).1

/-- A semijoin of a table of pairs with the first values of another one. -/
def Plan.firstOfPairs : Plan :=
  { ScanSemiJoin.ofPairs [.onPairs 1 [0]] [0] with
    rhs := .node 3 (.project [⟨"first", .field 0 .bigint⟩]) [.node 1 (.tableScan (.ofPairs 1 [])) []] }.plan

theorem Plan.holds_firstOfPairs : ({ nextNode := 4 } : Workspace).Holds firstOfPairs.preorder := by
  apply Workspace.Holds.preorder
  · decide
  · decide
  · decide

/-- A semijoin of pairs that other pairs are joined to twice, after the first values are. -/
def Plan.pairsThriceJoined : Plan :=
  .node 7 (.semiJoin (.ofNats [0]) (.ofNats [0]))
    [.node 6 (.semiJoin (.ofNats [0]) (.ofNats [0])) [firstOfPairs, .node 4 (.tableScan (.ofPairs 1 [])) []],
      .node 5 (.tableScan (.ofPairs 1 [])) []]

theorem Plan.holds_pairsThriceJoined : ({ nextNode := 8 } : Workspace).Holds pairsThriceJoined.preorder := by
  apply Workspace.Holds.preorder
  · decide
  · decide
  · decide

/-- Does firing the rules and applying an alternative lead to a plan that passes the test? -/
def RuleSet.turnsTo [ParamAllocator] (rules : List SemiJoinRule) (w : Workspace) (p : Plan)
    (test : Plan → Workspace → Bool) : Bool :=
  (alternatives (rules.map SemiJoinRule.toRule) p).leadsTo w fun alts u =>
    alts.any fun a => (a.apply p).leadsTo u test

theorem Run.exists_of_turnsTo [ParamAllocator] {w v : Workspace} {p q : Plan} {rules : List SemiJoinRule}
    {test : Plan → Workspace → Bool} (run : Run w p v q) (turns : RuleSet.turnsTo rules v q test = true) :
    ∃ u r, Run w p u r ∧ test r u = true := by
  obtain ⟨alts, t, fired, turns⟩ := Planner.exists_of_leadsTo turns
  obtain ⟨a, mem, turns⟩ := List.any_eq_true.1 turns
  obtain ⟨r, u, applied, passes⟩ := Planner.exists_of_leadsTo turns
  exact ⟨u, r, run.step (Nat.le_refl _) fired mem (Nat.le_refl _) applied, passes⟩

/-- Two of the three semijoins are rewritten, so that two probes are in a group, and an alternative is
offered for the third. -/
theorem Run.exists_pairsThriceJoined :
    ∃ v q alts, Run { nextNode := 8 } .pairsThriceJoined v q ∧ q.any (·.kind = .ixIntersect) = true ∧
      (RuleSet.alternatives ((SemiJoinRule.all {}).map SemiJoinRule.toRule) q).Yields alts ∧ alts ≠ [] := by
  have turns : RuleSet.turnsTo (SemiJoinRule.all {}) { nextNode := 8 } .pairsThriceJoined fun p u =>
      RuleSet.turnsTo (SemiJoinRule.all {}) u p fun q v =>
        q.any (·.kind = .ixIntersect) &&
          (RuleSet.alternatives ((SemiJoinRule.all {}).map SemiJoinRule.toRule) q).leadsTo v fun alts _ =>
            !alts.isEmpty := by
    decide +kernel
  obtain ⟨u, p, first, turns⟩ := Run.start.exists_of_turnsTo turns
  obtain ⟨v, q, second, passes⟩ := first.exists_of_turnsTo turns
  obtain ⟨group, offers⟩ := Bool.and_eq_true_iff.1 passes
  obtain ⟨alts, t, fired, some⟩ := Planner.exists_of_leadsTo offers
  exact ⟨v, q, alts, second, group, fired.yields, by simpa using some⟩

end QueryPlan
