import Mathlib.Data.List.Pairwise
import Mathlib.Logic.Relation
import QueryPlan.Proofs.Offers

/-!
# Sessions

A session fires rules on its plan and applies alternatives to it, in any order; an alternative may be
applied long after it was offered, or again, or never. As long as no more than 2^32 parameters are
taken, they stay distinct, and none of them comes to stand at two places: the semijoin of an
alternative stands at one place at most, it has gone for good once the alternative is applied, and
until then the parameters of the alternative stand nowhere in the plan (`Session.Sound`).
-/
namespace QueryPlan

theorem disjoint_of_nodup_flatMap {α β : Type} {f : α → List β} {xs : List α} (h : (xs.flatMap f).Nodup)
    {x y : α} (hx : x ∈ xs) (hy : y ∈ xs) (ne : x ≠ y) : (f x).Disjoint (f y) := by
  have : Std.Symm (Function.onFun List.Disjoint f) := ⟨fun _ _ apart => apart.symm⟩
  exact (List.nodup_flatMap.1 h).2.forall hx hy ne

namespace Plan

/-- The limits of the merges and the parameters of the groups are all different. -/
structure ParamsApart (p : Plan) : Prop where
  /-- The two parameters of a group are different. -/
  own : ∀ x ∈ p.preorder, x.op.params.Nodup
  /-- Different merges and intersections have no parameter in common. -/
  different : ∀ x ∈ p.preorder, ∀ y ∈ p.preorder, x ≠ y → x.op.params.Disjoint y.op.params

theorem params_eq_coe (p : Plan) : p.params = ↑(p.preorder.flatMap fun z => z.op.params) := by
  unfold params total
  induction p.preorder with
  | nil => rfl
  | cons z zs ih =>
    rw [List.map_cons, List.sum_cons, ih, List.flatMap_cons, ← Multiset.coe_add]
    rfl

theorem paramsApart_of_nodup {p : Plan} (h : p.params.Nodup) : p.ParamsApart := by
  rw [params_eq_coe, Multiset.coe_nodup] at h
  exact ⟨(List.nodup_flatMap.1 h).1, fun x hx y hy => disjoint_of_nodup_flatMap h hx hy⟩

theorem params_eq_zero {p : Plan} (none : ∀ x ∈ p.preorder, x.isProbe = false) : p.params = 0 := by
  rw [params_eq_coe, Multiset.coe_eq_zero, List.flatMap_eq_nil_iff]
  intro x hx
  have plain := none x hx
  obtain ⟨i, op, inputs⟩ := x
  cases op <;> first | rfl | cases plain

theorem joinIds_le (p : Plan) : p.joinIds ≤ ↑(p.preorder.map id) := by
  unfold joinIds total
  induction p.preorder with
  | nil => simp
  | cons z zs ih =>
    rw [List.map_cons, List.sum_cons, List.map_cons, ← Multiset.cons_coe, ← Multiset.singleton_add]
    refine add_le_add ?_ ih
    unfold ownJoinIds
    split <;> simp

end Plan

/-- A rewriting has lost its semijoin and no other. -/
theorem SemiJoinRule.Rewrites.joinIds_eq {r : SemiJoinRule} {m : ScanSemiJoin} {c : Candidate} {q : Plan}
    (h : r.Rewrites m c q) : m.plan.joinIds = {m.plan.id} + q.joinIds :=
  h.total_eq fun _ other => if_neg other

/-- A session of the optimizer. -/
structure Session where
  workspace : Workspace
  plan : Plan
  /-- The alternatives offered so far. -/
  offers : List Alternative
  /-- How many parameters have been taken. -/
  taken : Nat

namespace Session

/-- A session starts with nothing offered and nothing taken. -/
def start (w : Workspace) (p : Plan) : Session := ⟨w, p, [], 0⟩

/-- What a session may do next. -/
inductive Step : Session → Session → Prop
  /-- Fires rules on the plan. -/
  | fire {s : Session} {rules : List SemiJoinRule} {alts : List Alternative} {w : Workspace}
      (fired : (RuleSet.alternatives (rules.map SemiJoinRule.toRule) s.plan).Returns s.workspace alts w) :
      Step s ⟨w, s.plan, s.offers ++ alts, s.taken + RuleSet.paramCost alts⟩
  /-- Applies an alternative that was offered at some time. -/
  | apply {s : Session} {a : Alternative} {q : Plan} {w : Workspace} (offered : a ∈ s.offers)
      (applied : (a.apply s.plan).Returns s.workspace q w) : Step s ⟨w, q, s.offers, s.taken⟩
  /-- Does some other planning, or planning that fails. -/
  | other {s : Session} {w : Workspace} {n : Nat} (nodes : s.workspace.nextNode ≤ w.nextNode)
      (params : w.nextParam = s.workspace.nextParam.advance n) :
      Step s ⟨w, s.plan, s.offers, s.taken + n⟩

/-- What holds of a session whose first parameter is `first`. -/
structure Sound (first : ParamId) (s : Session) : Prop where
  next : s.workspace.nextParam = first.advance s.taken
  built : ∃ built, s.workspace.Holds built ∧ s.plan ∈ built ∧
    ∀ a ∈ s.offers, a.matched ∈ built ∧ a.replacement ∈ built
  offered : ∀ a ∈ s.offers, ∃ r m c, a.matched = m.plan ∧ SemiJoinRule.Rewrites r m c a.replacement
  /-- No parameter was taken for two alternatives. -/
  spent : (s.offers.flatMap Alternative.newParams).Sublist (first.consecutive s.taken)
  /-- No semijoin stands at two places. -/
  once : s.plan.joinIds.Nodup
  params : s.plan.params.Nodup
  known : ∀ x ∈ s.plan.params, x ∈ first.consecutive s.taken
  /-- As long as the semijoin of an alternative is there, the parameters of the alternative are not. -/
  pending : ∀ a ∈ s.offers, a.matched.id ∈ s.plan.joinIds → ∀ x ∈ a.newParams, x ∉ s.plan.params

variable {first : ParamId} {s s' : Session}

theorem sound_start {w : Workspace} {p : Plan} (holds : w.Holds p.preorder)
    (once : (p.preorder.map Plan.id).Nodup) (none : ∀ x ∈ p.preorder, x.isProbe = false) :
    (start w p).Sound w.nextParam where
  next := (Id.advance_zero _).symm
  built := ⟨p.preorder, holds, p.self_mem_preorder, nofun⟩
  offered := nofun
  spent := List.nil_sublist _
  once := Multiset.nodup_of_le p.joinIds_le (Multiset.coe_nodup.2 once)
  params := by
    have zero : p.params = 0 := Plan.params_eq_zero none
    change p.params.Nodup
    simp [zero]
  known := by
    have zero : p.params = 0 := Plan.params_eq_zero none
    change ∀ x ∈ p.params, _
    simp [zero]
  pending := nofun

theorem Sound.fire (h : s.Sound first) {rules : List SemiJoinRule} {alts : List Alternative} {w : Workspace}
    (fired : (RuleSet.alternatives (rules.map SemiJoinRule.toRule) s.plan).Returns s.workspace alts w)
    (enough : s.taken + RuleSet.paramCost alts ≤ 4294967296) :
    Sound first ⟨w, s.plan, s.offers ++ alts, s.taken + RuleSet.paramCost alts⟩ := by
  obtain ⟨built, holds, hplan, hoffers⟩ := h.built
  obtain ⟨built', holds', keeps, has⟩ :=
    RuleSet.grows_alternatives rules s.plan s.workspace alts w built fired holds (by simpa)
  have paid := RuleSet.paid_of_alternatives fired
  have shape := fun {a} => RuleSet.rewrites_of_mem_alternatives fired.yields (a := a)
  rw [h.next] at paid
  have all := Id.nodup_consecutive first enough
  rw [Id.consecutive_add] at all
  constructor
  case next => rw [paid.taken, Id.advance_advance]
  case built =>
    refine ⟨built', holds', keeps hplan, fun a ha => ?_⟩
    rcases List.mem_append.1 ha with ha | ha
    · exact ⟨keeps (hoffers a ha).1, keeps (hoffers a ha).2⟩
    · exact ⟨keeps (holds.preorder_subset hplan (shape ha).1), has (List.mem_map_of_mem ha)⟩
  case offered =>
    intro a ha
    rcases List.mem_append.1 ha with ha | ha
    · exact h.offered a ha
    · exact (shape ha).2
  case spent =>
    rw [List.flatMap_append, paid.params, Id.consecutive_add]
    exact h.spent.append (List.Sublist.refl _)
  case once => exact h.once
  case params => exact h.params
  case known => exact fun x hx => Id.consecutive_subset_add _ _ _ (h.known x hx)
  case pending =>
    intro a ha there x hx
    rcases List.mem_append.1 ha with ha | ha
    · exact h.pending a ha there x hx
    · have new : x ∈ alts.flatMap Alternative.newParams := List.mem_flatMap.2 ⟨a, ha, hx⟩
      rw [paid.params] at new
      exact fun old => (List.nodup_append.1 all).2.2 x (h.known x old) x new rfl

/-- If an alternative is applied, the plan gets at most the parameters of the alternative, which it
does not have yet. -/
theorem Sound.exists_params_le (h : s.Sound first) {a : Alternative} {q : Plan}
    (offered : a ∈ s.offers) {next : NodeId} (replaced : a.matched.Replaced a.replacement next s.plan q)
    (alone : s.plan.Everywhere fun z => z.id = a.matched.id → z = a.matched)
    (enough : s.taken ≤ 4294967296) :
    ∃ new ⊆ a.newParams, new.Nodup ∧ (∀ x ∈ new, x ∉ s.plan.params) ∧
      q.params ≤ s.plan.params + (new : Multiset ParamId) := by
  obtain ⟨r, m, c, matched, rewrites⟩ := h.offered a offered
  have kind : a.matched.kind = .semiJoin := matched ▸ rfl
  by_cases absent : a.matched.Lacks s.plan
  · refine ⟨[], List.nil_subset _, List.nodup_nil, nofun, ?_⟩
    rw [replaced.eq_of_lacks absent]
    exact Multiset.le_add_right _ _
  · have there := Plan.mem_joinIds_of_not_lacks kind alone absent
    have all := h.spent.nodup (Id.nodup_consecutive first enough)
    obtain ⟨kept, le, eq⟩ := rewrites.exists_params_eq
    have new : m.newParams a.replacement = a.newParams := by
      rw [Alternative.newParams, matched]
      rfl
    rw [new] at eq
    refine ⟨a.newParams, fun _ hx => hx, (List.nodup_flatMap.1 all).1 a offered,
      h.pending a offered there, ?_⟩
    exact replaced.params_le kind alone h.once (matched ▸ le) eq

theorem Sound.apply (h : s.Sound first) {a : Alternative} {q : Plan} {w : Workspace}
    (offered : a ∈ s.offers) (applied : (a.apply s.plan).Returns s.workspace q w)
    (enough : s.taken ≤ 4294967296) : Sound first ⟨w, q, s.offers, s.taken⟩ := by
  obtain ⟨built, holds, hplan, hoffers⟩ := h.built
  obtain ⟨hm, hr⟩ := hoffers a offered
  obtain ⟨r, m, c, matched, rewrites⟩ := h.offered a offered
  obtain ⟨replaced, alone⟩ := replaced_of_apply holds hplan hm hr matched rewrites applied
  obtain ⟨built', holds', keeps, has⟩ := Plan.grows_replace a.matched a.replacement s.plan s.workspace q w
    built applied holds (by simp [hr, hplan])
  obtain ⟨new, sub, nodup, fresh, le⟩ := h.exists_params_le offered replaced alone enough
  have old : s.plan.Everywhere fun z => z.id < s.workspace.nextNode :=
    fun z hz => holds.id_lt z (holds.preorder_subset hplan hz)
  have less : a.matched.joinIds = {a.matched.id} + a.replacement.joinIds := matched ▸ rewrites.joinIds_eq
  have kind : a.matched.kind = .semiJoin := matched ▸ rfl
  obtain ⟨onceAfter, gone⟩ := replaced.nodup_joinIds kind alone old (holds.id_lt _ hm) h.once less
  have all := h.spent.nodup (Id.nodup_consecutive first enough)
  constructor
  case next =>
    rw [Plan.keepsParams_replace _ _ _ _ _ _ applied]
    exact h.next
  case built =>
    exact ⟨built', holds', has (by simp), fun b hb => ⟨keeps (hoffers b hb).1, keeps (hoffers b hb).2⟩⟩
  case offered => exact h.offered
  case spent => exact h.spent
  case once => exact onceAfter
  case params =>
    refine Multiset.nodup_of_le le (Multiset.nodup_add.2 ⟨h.params, Multiset.coe_nodup.2 nodup, ?_⟩)
    exact Multiset.disjoint_right.2 fun hx => fresh _ hx
  case known =>
    intro x hx
    rcases Multiset.mem_add.1 (Multiset.mem_of_le le hx) with before | after
    · exact h.known x before
    · exact h.spent.subset (List.mem_flatMap.2 ⟨a, offered, sub after⟩)
  case pending =>
    intro b hb there x hx added
    obtain ⟨ne, before⟩ := gone _ there
    have wasThere : b.matched.id ∈ s.plan.joinIds :=
      before.resolve_right (Nat.not_le_of_lt (holds.id_lt _ (hoffers b hb).1))
    rcases Multiset.mem_add.1 (Multiset.mem_of_le le added) with old | after
    · exact h.pending b hb wasThere x hx old
    · have different : b ≠ a := fun same => ne (same ▸ rfl)
      exact disjoint_of_nodup_flatMap all hb offered different hx (sub after)

theorem Sound.step (h : s.Sound first) (step : Step s s') (enough : s'.taken ≤ 4294967296) :
    s'.Sound first := by
  cases step with
  | fire fired => exact h.fire fired enough
  | apply offered applied => exact h.apply offered applied enough
  | other nodes params =>
    obtain ⟨built, holds, known⟩ := h.built
    constructor
    case next => rw [params, h.next, Id.advance_advance]
    case built => exact ⟨built, holds.mono nodes, known⟩
    case offered => exact h.offered
    case spent =>
      rw [Id.consecutive_add]
      exact h.spent.trans (List.sublist_append_left _ _)
    case once => exact h.once
    case params => exact h.params
    case known => exact fun x hx => Id.consecutive_subset_add _ _ _ (h.known x hx)
    case pending => exact h.pending

theorem Step.taken_le (step : Step s s') : s.taken ≤ s'.taken := by
  cases step with
  | fire => exact Nat.le_add_right _ _
  | apply => exact Nat.le_refl _
  | other => exact Nat.le_add_right _ _

theorem Sound.run (h : s.Sound first) (run : Relation.ReflTransGen Step s s')
    (enough : s'.taken ≤ 4294967296) : s'.Sound first := by
  induction run with
  | refl => exact h
  | tail _ step ih => exact (ih (step.taken_le.trans enough)).step step enough

/-- In every plan that a session reaches from a plan without probes, in which no node stands at two
places, the parameters stay apart as long as no more than 2^32 of them are taken; then the next one
is as many places after the first. -/
theorem paramsApart {w : Workspace} {p : Plan} (holds : w.Holds p.preorder)
    (once : (p.preorder.map Plan.id).Nodup) (none : ∀ x ∈ p.preorder, x.isProbe = false)
    (run : Relation.ReflTransGen Step (start w p) s) (enough : s.taken ≤ 4294967296) :
    s.plan.ParamsApart ∧ s.workspace.nextParam = w.nextParam.advance s.taken := by
  have sound := (sound_start holds once none).run run enough
  exact ⟨Plan.paramsApart_of_nodup sound.params, sound.next⟩

end Session

/-- A semijoin of pairs that other pairs are joined to. -/
def Plan.pairsTwiceJoined : Plan :=
  .node 4 (.semiJoin (.ofNats [0]) (.ofNats [0]))
    [(ScanSemiJoin.ofPairs [.onPairs 1 [0]] [0]).plan, .node 3 (.tableScan (.ofPairs 1 [])) []]

theorem Plan.holds_pairsTwiceJoined : ({ nextNode := 5 } : Workspace).Holds pairsTwiceJoined.preorder := by
  apply Workspace.Holds.preorder
  · decide
  · decide
  · decide

/-- Firing and applying twice rewrites both semijoins, and the probe of the first one ends up in a
group with that of the second. -/
theorem Session.exists_run_pairsTwiceJoined :
    ∃ s, Relation.ReflTransGen Step (start { nextNode := 5 } .pairsTwiceJoined) s ∧ s.taken = 5 ∧
      s.plan.any (·.kind = .ixIntersect) = true := by
  have run : (RuleSet.alternatives ((SemiJoinRule.all {}).map SemiJoinRule.toRule) .pairsTwiceJoined).leadsTo
      { nextNode := 5 } (fun alts w => decide (RuleSet.paramCost alts = 1) && alts.any fun a =>
        (a.apply .pairsTwiceJoined).leadsTo w fun p v =>
          (RuleSet.alternatives ((SemiJoinRule.all {}).map SemiJoinRule.toRule) p).leadsTo v fun bs u =>
            decide (RuleSet.paramCost bs = 4) && bs.any fun b =>
              (b.apply p).leadsTo u fun q _ => q.any (·.kind = .ixIntersect)) := by
    decide +kernel
  obtain ⟨alts, w, fired, run⟩ := Planner.exists_of_leadsTo run
  simp only [Bool.and_eq_true, List.any_eq_true, decide_eq_true_eq] at run
  obtain ⟨one, a, ha, run⟩ := run
  obtain ⟨p, v, applied, run⟩ := Planner.exists_of_leadsTo run
  obtain ⟨bs, u, firedAgain, run⟩ := Planner.exists_of_leadsTo run
  simp only [Bool.and_eq_true, List.any_eq_true, decide_eq_true_eq] at run
  obtain ⟨four, b, hb, run⟩ := run
  obtain ⟨q, t, appliedAgain, group⟩ := Planner.exists_of_leadsTo run
  have first : Relation.ReflTransGen Step (start { nextNode := 5 } .pairsTwiceJoined)
      ⟨v, p, [] ++ alts, 0 + RuleSet.paramCost alts⟩ :=
    (Relation.ReflTransGen.single (.fire fired)).tail (.apply (List.mem_append_right _ ha) applied)
  refine ⟨_, (first.tail (.fire firedAgain)).tail (.apply (by simp [hb]) appliedAgain), ?_, group⟩
  change 0 + RuleSet.paramCost alts + RuleSet.paramCost bs = 5
  rw [one, four]

/-- In the session that groups two probes, the parameters stay apart. -/
theorem Session.paramsApart_pairsTwiceJoined :
    ∃ s, Relation.ReflTransGen Step (start { nextNode := 5 } .pairsTwiceJoined) s ∧
      s.plan.any (·.kind = .ixIntersect) = true ∧ s.plan.ParamsApart := by
  obtain ⟨s, run, taken, group⟩ := exists_run_pairsTwiceJoined
  have enough : s.taken ≤ 4294967296 := by omega
  have apart := paramsApart Plan.holds_pairsTwiceJoined (by decide) (by decide) run enough
  exact ⟨s, run, group, apart.1⟩

end QueryPlan
