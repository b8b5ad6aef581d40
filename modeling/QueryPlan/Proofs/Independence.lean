import QueryPlan.Proofs.Application
import QueryPlan.Proofs.ExactReplacement
import QueryPlan.Proofs.Sessions

/-!
# Independent alternatives

Two alternatives of one fire are independent if neither of their semijoins stands inside the other. Each
of them can then be applied to what the other has left, and up to identities it does not matter which one
comes first (`Alternative.independent_commute`). The first one builds the operators above its semijoin
again. The second semijoin is none of them, so it is still found wherever it stood.
-/
namespace QueryPlan

namespace Plan

variable {target replacement a b ra rb p q z : Plan} {next : NodeId}

/-- Substitutions of two nodes commute if neither node is in what is put in place of the other. -/
theorem substitute_comm (ne : a.id ≠ b.id) (ha : a.Lacks rb) (hb : b.Lacks ra) (p : Plan) :
    substitute b rb (substitute a ra p) = substitute a ra (substitute b rb p) := by
  induction p with
  | node i op xs ih =>
    by_cases isA : i = a.id
    · rw [substitute_node, if_pos isA, hb.substitute_eq, substitute_node, if_neg (isA ▸ ne), substitute_node,
        if_pos isA]
    by_cases isB : i = b.id
    · rw [substitute_node, if_neg isA, substitute_node, if_pos isB, substitute_node, if_pos isB,
        ha.substitute_eq]
    · rw [substitute_node, if_neg isA, substitute_node, if_neg isB, substitute_node, if_neg isB,
        substitute_node, if_neg isA, List.map_map, List.map_map]
      exact congrArg (node i op) (List.map_congr_left ih)

/-- A replacement of a node that `b` does not have, and the naive substitution of this node, are alike for a
substitution of `b`: the operators that are built again are not `b`, before and after. -/
theorem Replaced.shape_substitute_eq (h : Replaced a ra next p q) (old : b.id < next)
    (outside : p.Everywhere fun z => z.id = b.id → a.Lacks z) :
    (substitute b rb q).shape = (substitute b rb (substitute a ra p)).shape := by
  induction p generalizing q with
  | node i op xs ih =>
    cases h with
    | hit same =>
      have same : i = a.id := same
      rw [substitute_node, if_pos same]
    | kept absent => rw [absent.substitute_eq]
    | @rebuilt _ j _ _ ys other found inputs fresh =>
      obtain ⟨root, below⟩ := everywhere_node.1 outside
      have new : j ≠ b.id := Nat.ne_of_gt (Nat.lt_of_lt_of_le old fresh)
      have notB : i ≠ b.id := by
        intro same
        obtain ⟨x, hx, present⟩ := found
        exact present ((everywhere_node.1 (root same)).2 x hx)
      have each := map_eq_map_of_forall₂ (forall₂_imp_of_mem inputs fun x hx y hy => ih x hx hy (below x hx))
      rw [substitute_node, if_neg new, substitute_node, if_neg other, substitute_node, if_neg notB, shape_node,
        shape_node, List.map_map, List.map_map, List.map_map]
      exact congrArg (Shape.node op) each

/-- A replacement does not bring back the node that it replaces, nor a node that was not there. -/
theorem Replaced.lacks (h : Replaced target replacement next p q) (absent : z.Lacks replacement)
    (old : z.id < next) (gone : z.id = target.id ∨ z.Lacks p) : z.Lacks q := by
  induction p generalizing q with
  | node i op xs ih =>
    cases h with
    | hit => exact absent
    | kept kept =>
      rcases gone with same | gone
      · exact fun y hy => same ▸ kept y hy
      · exact gone
    | @rebuilt _ j _ _ ys other found inputs fresh =>
      refine everywhere_node.2 ⟨Nat.ne_of_gt (Nat.lt_of_lt_of_le old fresh), fun y hy => ?_⟩
      obtain ⟨x, hx, replaced⟩ := exists_left_of_forall₂ inputs hy
      exact ih x hx replaced (gone.imp_right fun gone => (everywhere_node.1 gone).2 x hx)

end Plan

/-- A rewriting has no semijoins but those below its own. -/
theorem SemiJoinRule.Rewrites.lacks {r : SemiJoinRule} {m : ScanSemiJoin} {c : Candidate} {q z : Plan}
    (h : r.Rewrites m c q) (kind : z.kind = .semiJoin) (alone : q.Everywhere fun y => y.id = z.id → y = z)
    (below : ∀ x ∈ m.plan.inputs, z.Lacks x) : z.Lacks q := by
  have joins : q.joinIds = (m.plan.inputs.map Plan.joinIds).sum := by
    have whole : m.plan.joinIds = {m.plan.id} + (m.plan.inputs.map Plan.joinIds).sum := Plan.total_node _ _ _
    exact add_left_cancel (h.joinIds_eq.symm.trans whole)
  by_contra present
  have there := Plan.mem_joinIds_of_not_lacks kind alone present
  rw [joins] at there
  obtain ⟨x, hx, inside⟩ := Plan.mem_sum_total.1 there
  exact Plan.not_mem_joinIds_of_lacks (below x hx) inside

namespace Alternative

/-- Applies one alternative and then the other. -/
def applyBoth (a b : Alternative) (root : Plan) : Planner Plan := do
  b.apply (← a.apply root)

/-- The alternative is one that a semijoin rule has offered, and its plans are built. -/
structure OfferedIn [ParamAllocator] (a : Alternative) (built : List Plan) : Prop where
  matched : a.matched ∈ built
  replacement : a.replacement ∈ built
  attempted : ∃ r : SemiJoinRule, (r.toRule.attempt a.matched).Yields (some a.replacement)

namespace OfferedIn

variable [ParamAllocator] {a b : Alternative} {w : Workspace} {built : List Plan} {p q : Plan}

theorem mono {more : List Plan} (h : a.OfferedIn built) (sub : built ⊆ more) : a.OfferedIn more :=
  ⟨sub h.matched, sub h.replacement, h.attempted⟩

theorem exists_rewrites (h : a.OfferedIn built) :
    ∃ r m c, a.matched = m.plan ∧ SemiJoinRule.Rewrites r m c a.replacement := by
  obtain ⟨r, attempted⟩ := h.attempted
  exact ⟨r, SemiJoinRule.rewrites_of_attempt attempted⟩

theorem kind_eq (h : a.OfferedIn built) : a.matched.kind = .semiJoin := by
  obtain ⟨r, m, c, matched, -⟩ := h.exists_rewrites
  exact matched ▸ rfl

theorem lacks_replacement (ha : a.OfferedIn built) (hb : b.OfferedIn built) (holds : w.Holds built)
    (below : ∀ x ∈ a.matched.inputs, b.matched ∉ x.preorder) : b.matched.Lacks a.replacement := by
  obtain ⟨r, m, c, matched, rewrites⟩ := ha.exists_rewrites
  refine rewrites.lacks hb.kind_eq (holds.alone ha.replacement hb.matched) fun x hx => ?_
  rw [← matched] at hx
  have known : x ∈ built := holds.inputs_mem _ ha.matched x hx
  exact (Plan.lacks_iff (holds.alone known hb.matched)).2 (below x hx)

/-- An alternative can be applied to every plan that is built, and then its semijoin is gone. -/
theorem exists_applied (h : a.OfferedIn built) (holds : w.Holds built) (hp : p ∈ built) :
    ∃ q w', (a.apply p).Returns w q w' ∧ a.matched.Replaced a.replacement w.nextNode p q ∧
      ∃ built', w'.Holds built' ∧ built ⊆ built' ∧ q ∈ built' := by
  obtain ⟨r, attempted⟩ := h.attempted
  obtain ⟨_, m, c, matched, rewrites⟩ := h.exists_rewrites
  obtain ⟨q, w', applied, -⟩ := holds.keepsRowType_apply hp h.matched attempted w
  obtain ⟨replaced, -⟩ := replaced_of_apply holds hp h.matched h.replacement matched rewrites applied
  have known : [a.replacement, p] ⊆ built := by simp [h.replacement, hp]
  obtain ⟨built', holds', keeps, has⟩ := Plan.grows_replace _ _ p w q w' built applied holds known
  exact ⟨q, w', applied, replaced, built', holds', keeps, has (List.mem_singleton_self q)⟩

/-- The second semijoin is still found in what the first alternative leaves, wherever it stood. -/
theorem exists_applyBoth (ha : a.OfferedIn built) (hb : b.OfferedIn built) (holds : w.Holds built)
    (hp : p ∈ built) (outside : a.matched ∉ b.matched.preorder) (apart : a.matched.Lacks b.replacement) :
    ∃ q w', (applyBoth a b p).Returns w q w' ∧ a.matched.Lacks q ∧ b.matched.Lacks q ∧
      q.shape = (Plan.substitute b.matched b.replacement
        (Plan.substitute a.matched a.replacement p)).shape := by
  have self : ∀ {c : Alternative}, c.OfferedIn built → c.matched.Lacks c.replacement := by
    intro c hc
    exact hc.lacks_replacement hc holds fun x hx => Plan.not_mem_preorder_of_mem_inputs hx
  obtain ⟨p', u, applied, replaced, built', holds', keeps, hp'⟩ := ha.exists_applied holds hp
  obtain ⟨q, v, applied', replaced', -⟩ := (hb.mono keeps).exists_applied holds' hp'
  have old := holds.id_lt _ ha.matched
  have gone : a.matched.Lacks p' := replaced.lacks (self ha) old (.inl rfl)
  refine ⟨q, v, Planner.returns_bind.2 ⟨p', u, applied, applied'⟩, ?_, ?_, ?_⟩
  · exact replaced'.lacks apart (holds'.id_lt _ (keeps ha.matched)) (.inr gone)
  · exact replaced'.lacks (self hb) (holds'.id_lt _ (keeps hb.matched)) (.inl rfl)
  · rw [replaced'.shape_eq]
    refine replaced.shape_substitute_eq (holds.id_lt _ hb.matched) fun z hz same => ?_
    obtain rfl := holds.alone hp hb.matched z hz same
    exact (Plan.lacks_iff (holds.alone hb.matched ha.matched)).2 outside

end OfferedIn

/-- What is offered for a built plan is built when the fire ends. -/
theorem exists_offeredIn [ParamAllocator] {root : Plan} {w w' : Workspace} {built : List Plan}
    {rules : List SemiJoinRule} {alts : List Alternative} (holds : w.Holds built) (hroot : root ∈ built)
    (fired : (RuleSet.alternatives (rules.map SemiJoinRule.toRule) root).Returns w alts w') :
    ∃ built', w'.Holds built' ∧ built ⊆ built' ∧ ∀ a ∈ alts, a.OfferedIn built' := by
  obtain ⟨built', holds', keeps, has⟩ :=
    RuleSet.grows_alternatives rules root w alts w' built fired holds (by simpa)
  refine ⟨built', holds', keeps, fun a ha => ?_⟩
  obtain ⟨found, rule, hrule, attempted⟩ := RuleSet.attempt_of_mem_alternatives fired.yields ha
  obtain ⟨r, -, rfl⟩ := List.mem_map.1 hrule
  exact ⟨keeps (holds.preorder_subset hroot found), has (List.mem_map_of_mem ha), r, attempted⟩

/-- Two alternatives of one fire, neither of whose semijoins stands inside the other, can be applied one after
the other in both orders, at any time after the fire. Both orders lead to the same plan up to identities, and
neither semijoin is left in it. -/
theorem independent_commute [ParamAllocator] {w w' : Workspace} {built : List Plan} {root : Plan}
    (holds : w.Holds built) (hroot : root ∈ built) {rules : List SemiJoinRule} {alts : List Alternative}
    (fired : (RuleSet.alternatives (rules.map SemiJoinRule.toRule) root).Returns w alts w')
    {a b : Alternative} (ha : a ∈ alts) (hb : b ∈ alts) (hab : a.matched ∉ b.matched.preorder)
    (hba : b.matched ∉ a.matched.preorder) {t u : Workspace} (ht : w'.nextNode ≤ t.nextNode)
    (hu : w'.nextNode ≤ u.nextNode) :
    ∃ p t' q u', (applyBoth a b root).Returns t p t' ∧ (applyBoth b a root).Returns u q u' ∧
      p.shape = q.shape ∧ (a.matched.Lacks p ∧ b.matched.Lacks p) ∧ a.matched.Lacks q ∧ b.matched.Lacks q := by
  obtain ⟨known, held, keeps, offered⟩ := exists_offeredIn holds hroot fired
  have ha := offered a ha
  have hb := offered b hb
  have inside {p q : Plan} (absent : q ∉ p.preorder) : ∀ x ∈ p.inputs, q ∉ x.preorder :=
    fun x hx found => absent (Plan.mem_preorder_trans found (Plan.mem_preorder_of_mem_inputs hx))
  have apart : a.matched.Lacks b.replacement := hb.lacks_replacement ha held (inside hab)
  have apart' : b.matched.Lacks a.replacement := ha.lacks_replacement hb held (inside hba)
  have ne : a.matched.id ≠ b.matched.id := by
    intro same
    rw [held.eq_of_id _ ha.matched _ hb.matched same] at hab
    exact hab b.matched.self_mem_preorder
  obtain ⟨p, t', applied, goneA, goneB, shape⟩ :=
    ha.exists_applyBoth hb (held.mono ht) (keeps hroot) hab apart
  obtain ⟨q, u', applied', goneB', goneA', shape'⟩ :=
    hb.exists_applyBoth ha (held.mono hu) (keeps hroot) hba apart'
  refine ⟨p, t', q, u', applied, applied', ?_, ⟨goneA, goneB⟩, goneA', goneB'⟩
  rw [shape, shape', Plan.substitute_comm ne apart apart']

end Alternative

namespace Plan

/-- A semijoin on the second fields of pairs, next to that of `firstOfPairs`. -/
def secondOfPairs : Plan :=
  { ScanSemiJoin.ofPairs [.onPairs 1 [1]] [1] with
    id := 6
    scanId := 4
    rhs := .node 5 (.tableScan (.ofPairs 1 [])) [] }.plan

def bothOfPairs : Plan := .node 7 (.semiJoin (.ofNats [0]) (.ofNats [0])) [firstOfPairs, secondOfPairs]

/-- The first of two independent semijoins stands at another place as well. -/
def bothOfPairsAgain : Plan := .node 8 (.semiJoin (.ofNats [0]) (.ofNats [0])) [bothOfPairs, firstOfPairs]

theorem holds_bothOfPairsAgain :
    ({ nextNode := 9 } : Workspace).Holds (bothOfPairsAgain :: bothOfPairs.preorder) := by
  have both : ({ nextNode := 8 } : Workspace).Holds bothOfPairs.preorder := by
    apply Workspace.Holds.preorder
    · decide
    · decide
    · decide
  have sub : [bothOfPairs, firstOfPairs] ⊆ bothOfPairs.preorder := by
    have first : firstOfPairs ∈ bothOfPairs.preorder := mem_preorder_of_mem_inputs List.mem_cons_self
    simp [first]
  exact both.cons_fresh sub rfl

end Plan

theorem Alternative.independent_commute_bothOfPairs :
    ∃ alts w a b, (RuleSet.alternatives ((SemiJoinRule.all {}).map SemiJoinRule.toRule) Plan.bothOfPairsAgain).Returns
        { nextNode := 9 } alts w ∧ a ∈ alts ∧ b ∈ alts ∧ a.matched.id = 2 ∧ b.matched.id = 6 ∧
      ∃ p t q u, (applyBoth a b Plan.bothOfPairsAgain).Returns w p t ∧
        (applyBoth b a Plan.bothOfPairsAgain).Returns w q u ∧ p.shape = q.shape ∧
        (a.matched.Lacks p ∧ b.matched.Lacks p) ∧ a.matched.Lacks q ∧ b.matched.Lacks q := by
  have run : (RuleSet.alternatives ((SemiJoinRule.all {}).map SemiJoinRule.toRule) Plan.bothOfPairsAgain).leadsTo
      { nextNode := 9 } (fun alts _ => alts.any fun a => alts.any fun b =>
        decide (a.matched.id = 2) && decide (b.matched.id = 6) &&
          !a.matched.preorder.any (·.same b.matched) && !b.matched.preorder.any (·.same a.matched)) := by
    decide +kernel
  obtain ⟨alts, w, fired, run⟩ := Planner.exists_of_leadsTo run
  simp only [Bool.and_eq_true, List.any_eq_true, decide_eq_true_eq, Bool.not_eq_true', List.any_eq_false] at run
  obtain ⟨a, ha, b, hb, ⟨⟨two, six⟩, hba⟩, hab⟩ := run
  have same (p : Plan) : p.same p = true := decide_eq_true rfl
  refine ⟨alts, w, a, b, fired, ha, hb, two, six, ?_⟩
  exact independent_commute Plan.holds_bothOfPairsAgain List.mem_cons_self fired ha hb
    (fun found => hab _ found (same _)) (fun found => hba _ found (same _)) (Nat.le_refl _) (Nat.le_refl _)

end QueryPlan
