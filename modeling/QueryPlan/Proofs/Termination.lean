import QueryPlan.Proofs.Replacement

/-!
# Optimization ends

A rewriting has one semijoin less than the plan it was made for, place by place. An alternative that
is applied takes away as many semijoins as its own has places, so a plan cannot be optimized more
often than it has places of semijoins.
-/
namespace QueryPlan

/-- The number of places at which a semijoin stands. -/
def Plan.semiJoins (p : Plan) : Nat := p.places fun q => q.kind = .semiJoin

/-- One turn of the optimization: rules are fired on the plan and one of the alternatives is applied
to it. Other planning may go on before each. -/
inductive Turn [ParamAllocator] : Workspace × Plan → Workspace × Plan → Prop
  | intro {v u u' t t' : Workspace} {q q' : Plan} {rules : List SemiJoinRule} {alts : List Alternative}
      {a : Alternative} (before : v.nextNode ≤ u.nextNode)
      (fired : (RuleSet.alternatives (rules.map SemiJoinRule.toRule) q).Returns u alts u') (mem : a ∈ alts)
      (between : u'.nextNode ≤ t.nextNode) (applied : (a.apply q).Returns t q' t') : Turn (v, q) (t', q')

theorem SemiJoinRule.Rewrites.semiJoins_eq {r : SemiJoinRule} {m : ScanSemiJoin} {c : Candidate}
    {q : Plan} (h : r.Rewrites m c q) : m.plan.semiJoins = q.semiJoins + 1 := by
  have whole : m.plan.semiJoins = 1 + q.semiJoins := by
    simp only [Plan.semiJoins, Plan.places_eq_total]
    exact h.total_eq fun p hp => by simp [hp]
  rw [whole, Nat.add_comm]

theorem Plan.Replaced.semiJoins_eq {target replacement p q : Plan} {next : NodeId}
    (h : Replaced target replacement next p q)
    (alone : p.Everywhere fun z => z.id = target.id → z = target) :
    q.semiJoins + p.places (·.same target) * target.semiJoins =
      p.semiJoins + p.places (·.same target) * replacement.semiJoins := by
  have exchanged := h.total_eq (f := fun z => if z.kind = .semiJoin then 1 else 0) alone
    fun _ _ _ _ _ => rfl
  simpa only [semiJoins, places_eq_total, decide_eq_true_eq, Nat.nsmul_eq_mul] using exchanged

/-- An alternative takes away as many semijoins as its own has places, and it has one. -/
theorem semiJoins_of_apply [ParamAllocator] {rules : List SemiJoinRule} {root q : Plan} {alts : List Alternative}
    {a : Alternative} {u u' t t' : Workspace} {built : List Plan} (holds : u.Holds built)
    (hroot : root ∈ built)
    (fired : (RuleSet.alternatives (rules.map SemiJoinRule.toRule) root).Returns u alts u') (mem : a ∈ alts)
    (between : u'.nextNode ≤ t.nextNode) (applied : (a.apply root).Returns t q t') :
    q.semiJoins + root.places (·.same a.matched) = root.semiJoins ∧
      0 < root.places (·.same a.matched) := by
  obtain ⟨found, r, m, c, matched, rewrites⟩ := RuleSet.rewrites_of_mem_alternatives fired.yields mem
  obtain ⟨built₁, holds₁, keeps₁, has₁⟩ :=
    RuleSet.grows_alternatives rules root u alts u' built fired holds (by simpa)
  have hm : a.matched ∈ built₁ := keeps₁ (holds.preorder_subset hroot found)
  have hr : a.replacement ∈ built₁ := has₁ (List.mem_map_of_mem mem)
  obtain ⟨replaced, alone⟩ :=
    replaced_of_apply (holds₁.mono between) (keeps₁ hroot) hm hr matched rewrites applied
  have exchanged := replaced.semiJoins_eq alone
  have less : a.matched.semiJoins = a.replacement.semiJoins + 1 := matched ▸ rewrites.semiJoins_eq
  constructor
  · rw [less, Nat.mul_succ] at exchanged
    omega
  · exact List.countP_pos_iff.2 ⟨a.matched, found, by simp [Plan.same]⟩

theorem Turn.semiJoins_lt [ParamAllocator] {v t : Workspace} {q q' : Plan} (h : Turn (v, q) (t, q'))
    {built : List Plan} (holds : v.Holds built) (hq : q ∈ built) :
    q'.semiJoins < q.semiJoins ∧ ∃ built', t.Holds built' ∧ q' ∈ built' := by
  cases h with
  | intro before fired mem between applied =>
    have held := holds.mono before
    obtain ⟨exact, some⟩ := semiJoins_of_apply held hq fired mem between applied
    exact ⟨by omega, (step_of_apply held hq fired mem between applied).2⟩

/-- A chain of turns is at most as long as its first plan has places of semijoins. -/
theorem Turn.length_le [ParamAllocator] {v : Workspace} {q : Plan} {built : List Plan}
    {states : List (Workspace × Plan)} (turns : List.IsChain Turn ((v, q) :: states))
    (holds : v.Holds built) (hq : q ∈ built) : states.length ≤ q.semiJoins := by
  induction states generalizing v q built with
  | nil => exact Nat.zero_le _
  | cons s states ih =>
    obtain ⟨turn, turns⟩ := List.isChain_cons_cons.1 turns
    obtain ⟨less, built', holds', hs⟩ := turn.semiJoins_lt holds hq
    have rest := ih turns holds' hs
    rw [List.length_cons]
    omega

/-- A rewriting loses one semijoin, an alternative that is applied takes away as many as its own has
places, and so no chain of turns is longer than the plan has places of semijoins. -/
theorem optimization_ends [ParamAllocator] {w : Workspace} {built : List Plan} {root : Plan} (holds : w.Holds built)
    (hroot : root ∈ built) :
    (∀ (r : SemiJoinRule) (p q : Plan), (r.toRule.attempt p).Yields (some q) →
      q.semiJoins + 1 = p.semiJoins) ∧
    (∀ (rules : List SemiJoinRule) (alts : List Alternative) (a : Alternative) (u t t' : Workspace)
        (q : Plan), (RuleSet.alternatives (rules.map SemiJoinRule.toRule) root).Returns w alts u →
      a ∈ alts → u.nextNode ≤ t.nextNode → (a.apply root).Returns t q t' →
        q.semiJoins + root.places (·.same a.matched) = root.semiJoins ∧
          0 < root.places (·.same a.matched)) ∧
    ∀ states, List.IsChain Turn ((w, root) :: states) → states.length ≤ root.semiJoins := by
  refine ⟨?_, ?_, ?_⟩
  · intro r p q h
    obtain ⟨m, c, rfl, rewrites⟩ := SemiJoinRule.rewrites_of_attempt h
    exact rewrites.semiJoins_eq.symm
  · intro rules alts a u t t' q fired mem between applied
    exact semiJoins_of_apply holds hroot fired mem between applied
  · intro states turns
    exact Turn.length_le turns holds hroot

/-- A semijoin that reads another one on both sides. -/
def Plan.pairsTwice : Plan := .node 4 (.semiJoin (.ofNats [0]) (.ofNats [0])) [firstOfPairs, firstOfPairs]

theorem exists_turn_pairsTwice :
    ∃ alts u a q t, (RuleSet.alternatives ([⟨.scan, {}⟩].map SemiJoinRule.toRule) Plan.pairsTwice).Returns
        { nextNode := 5 } alts u ∧ a ∈ alts ∧ u.nextNode ≤ 20 ∧
      (a.apply Plan.pairsTwice).Returns { nextNode := 20 } q t ∧
      Plan.pairsTwice.places (·.same a.matched) = 2 := by
  have run : (RuleSet.alternatives ([⟨.scan, {}⟩].map SemiJoinRule.toRule) Plan.pairsTwice).leadsTo
      { nextNode := 5 } (fun alts u => decide (u.nextNode ≤ 20) && alts.any fun a =>
        decide (Plan.pairsTwice.places (·.same a.matched) = 2) &&
          (a.apply Plan.pairsTwice).leadsTo { nextNode := 20 } fun _ _ => true) := by
    decide +kernel
  obtain ⟨alts, u, fired, run⟩ := Planner.exists_of_leadsTo run
  simp only [Bool.and_eq_true, List.any_eq_true, decide_eq_true_eq] at run
  obtain ⟨between, a, mem, twice, run⟩ := run
  obtain ⟨q, t, applied, -⟩ := Planner.exists_of_leadsTo run
  exact ⟨alts, u, a, q, t, fired, mem, between, applied, twice⟩

/-- Of the three semijoins of the plan, the one that stands at two places is taken away at once. -/
theorem optimization_ends_pairsTwice :
    ∃ v q, Turn ({ nextNode := 5 }, Plan.pairsTwice) (v, q) ∧ Plan.pairsTwice.semiJoins = 3 ∧
      q.semiJoins + 2 = 3 ∧
      ∀ states, List.IsChain Turn (({ nextNode := 5 }, Plan.pairsTwice) :: states) → states.length ≤ 3 := by
  have sides : [Plan.firstOfPairs, Plan.firstOfPairs] ⊆ Plan.firstOfPairs.preorder := by simp
  have holds : ({ nextNode := 5 } : Workspace).Holds (Plan.pairsTwice :: Plan.firstOfPairs.preorder) :=
    Plan.holds_firstOfPairs.cons_fresh sides rfl
  have three : Plan.pairsTwice.semiJoins = 3 := by decide
  obtain ⟨-, applies, bound⟩ := optimization_ends holds List.mem_cons_self
  obtain ⟨alts, u, a, q, t, fired, mem, between, applied, twice⟩ := exists_turn_pairsTwice
  have exact : q.semiJoins + Plan.pairsTwice.places (·.same a.matched) = Plan.pairsTwice.semiJoins :=
    (applies _ alts a u _ t q fired mem between applied).1
  rw [twice, three] at exact
  refine ⟨t, q, .intro (Nat.le_refl _) fired mem between applied, three, exact, fun states turns => ?_⟩
  exact three ▸ bound states turns

end QueryPlan
