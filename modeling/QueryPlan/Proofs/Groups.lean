import QueryPlan.Proofs.Places
import QueryPlan.Proofs.Runs

/-!
# Groups

A rewriting that extends an intersection builds another one with the same parameters over the merges
of the old one. Different intersections of the new plan have different parameters only if the old one
has left the tree with the semijoin. It has not if the right side or another input of the scan reads
it as well.
-/
namespace QueryPlan

namespace Plan

/-- Intersections with the same parameters are one node. -/
def GroupsApart (p : Plan) : Prop :=
  ∀ x ∈ p.preorder, ∀ y ∈ p.preorder, x.kind = .ixIntersect → y.kind = .ixIntersect →
    x.op.params = y.op.params → x.id = y.id

instance (p : Plan) : Decidable p.GroupsApart :=
  inferInstanceAs (Decidable (∀ x ∈ p.preorder, ∀ y ∈ p.preorder, x.kind = .ixIntersect → y.kind = .ixIntersect →
    x.op.params = y.op.params → x.id = y.id))

def ownIntersections (p : Plan) : Multiset Plan := if p.kind = .ixIntersect then {p} else 0

/-- The intersections, place by place. -/
def intersections (p : Plan) : Multiset Plan := p.total ownIntersections

theorem sparse_ownIntersections : Sparse ownIntersections where
  tableScan _ _ _ := rfl
  ixSearch _ _ _ _ _ _ := rfl
  project _ _ _ := rfl
  sort _ _ _ _ := rfl
  filter _ _ _ := rfl

theorem mem_intersections {p x : Plan} : x ∈ p.intersections ↔ x ∈ p.preorder ∧ x.kind = .ixIntersect := by
  unfold intersections
  rw [mem_total]
  constructor
  · rintro ⟨z, hz, hx⟩
    unfold ownIntersections at hx
    split at hx
    · next kind =>
      obtain rfl := Multiset.mem_singleton.1 hx
      exact ⟨hz, kind⟩
    · simp at hx
  · rintro ⟨hx, kind⟩
    exact ⟨x, hx, by simp [ownIntersections, kind]⟩

theorem intersections_eq_sum {p : Plan} (h : p.kind ≠ .ixIntersect) :
    p.intersections = (p.inputs.map intersections).sum := by
  obtain ⟨i, op, inputs⟩ := p
  have own : ownIntersections (node i op inputs) = 0 := if_neg h
  rw [intersections, total_node, own, zero_add]
  rfl

/-- Plans with the same parameters are equal. -/
def Apart (ps : Multiset Plan) : Prop := ∀ x ∈ ps, ∀ y ∈ ps, x.op.params = y.op.params → x = y

/-- Where a plan is built, its identities stand for its nodes. -/
theorem groupsApart_iff_apart {w : Workspace} {built : List Plan} (holds : w.Holds built) {p : Plan}
    (hp : p ∈ built) : p.GroupsApart ↔ Apart p.intersections := by
  have inside := holds.preorder_subset hp
  simp only [GroupsApart, Apart, mem_intersections]
  constructor
  · rintro h x ⟨hx, kx⟩ y ⟨hy, ky⟩ same
    exact holds.eq_of_id x (inside hx) y (inside hy) (h x hx y hy kx ky same)
  · intro h x hx y hy kx ky same
    rw [h x ⟨hx, kx⟩ y ⟨hy, ky⟩ same]

theorem Apart.mono {ps qs : Multiset Plan} (h : Apart qs) (sub : ps ≤ qs) : Apart ps :=
  fun x hx y hy => h x (Multiset.mem_of_le sub hx) y (Multiset.mem_of_le sub hy)

theorem apart_add {p : Plan} {ps : Multiset Plan} (h : Apart ps)
    (new : ∀ y ∈ ps, p.op.params ≠ y.op.params) : Apart ({p} + ps) := by
  intro x hx y hy same
  rcases Multiset.mem_add.1 hx with hx | hx <;> rcases Multiset.mem_add.1 hy with hy | hy
  · rw [Multiset.mem_singleton.1 hx, Multiset.mem_singleton.1 hy]
  · rw [Multiset.mem_singleton.1 hx] at same
    exact absurd same (new y hy)
  · rw [Multiset.mem_singleton.1 hy] at same
    exact absurd same.symm (new x hx)
  · exact h x hx y hy same

theorem apart_exchange_iff {x p : Plan} {ps : Multiset Plan} (h : Apart ({x} + ps))
    (same : p.op.params = x.op.params) (ne : p ≠ x) : Apart ({p} + ps) ↔ x ∉ ps := by
  constructor
  · intro apart hx
    exact ne (apart p (by simp) x (by simp [hx]) same)
  · intro absent
    refine apart_add (h.mono (Multiset.le_add_left _ _)) fun y hy equal => absent ?_
    rw [h x (by simp) y (by simp [hy]) (same.symm.trans equal)]
    exact hy

end Plan

open Plan

namespace ScanSemiJoin

/-- What stands below the semijoin besides the row id source of the scan. -/
def besides (m : ScanSemiJoin) : Multiset Plan :=
  ((residual m.inputs).map intersections).sum + m.rhs.intersections

/-- The intersection that the scan reads through also stands elsewhere below the semijoin. -/
def ProbeShared (m : ScanSemiJoin) : Prop :=
  ∃ x, probe? m.inputs = some x ∧ x.kind = .ixIntersect ∧
    (x ∈ m.rhs.preorder ∨ ∃ y ∈ residual m.inputs, x ∈ y.preorder)

theorem probeShared_iff {m : ScanSemiJoin} {x : Plan} (existing : probe? m.inputs = some x)
    (kind : x.kind = .ixIntersect) : m.ProbeShared ↔ x ∈ m.besides := by
  have sum : x ∈ ((residual m.inputs).map intersections).sum ↔ ∃ y ∈ residual m.inputs, x ∈ y.preorder := by
    refine mem_sum_total.trans (exists_congr fun y => and_congr_right fun _ => ?_)
    exact mem_intersections.trans (and_iff_left kind)
  simp only [ProbeShared, existing, Option.some.injEq, exists_eq_left', besides, Multiset.mem_add, sum,
    mem_intersections, kind, and_true, true_and]
  exact Or.comm

end ScanSemiJoin

namespace SemiJoinRule

variable {r : SemiJoinRule} {m : ScanSemiJoin} {c : Candidate} {q : Plan}

/-- The intersections of the new plan. -/
theorem Rewrites.exists_intersections_eq (h : r.Rewrites m c q) :
    ∃ keys probe, ExtendedProbe (m.source c.index) keys (probe? m.inputs) probe ∧
      m.newParams q = newParams (probe? m.inputs) probe ∧
      q.intersections = probe.ownIntersections +
        (((probe? m.inputs).elim 0 fun x => (x.inputs.map intersections).sum) + m.besides) := by
  obtain ⟨keys, probe, probed, new, totals⟩ := h.exists_probe
  refine ⟨keys, probe, probed, new, ?_⟩
  have whole : q.intersections = probe.intersections + ((residual m.inputs).map intersections).sum :=
    (totals sparse_ownIntersections).1
  have keyed : keys.intersections = m.rhs.intersections := (totals sparse_ownIntersections).2
  have extended : probe.intersections = probe.ownIntersections + keys.intersections +
      (probe? m.inputs).elim 0 fun x => (x.inputs.map intersections).sum :=
    probed.total_eq sparse_ownIntersections fun _ _ _ _ => rfl
  rw [whole, extended, keyed, ScanSemiJoin.besides]
  abel

/-- Intersections are kept apart exactly if the one that is extended stands nowhere else. -/
theorem Rewrites.apart_iff [ParamAllocator] {next : ParamId} (h : r.Rewrites m c q)
    (params : m.newParams q = ParamAllocator.issued next m.paramCost) (apart : Apart m.plan.intersections)
    (fresh : ∀ x ∈ m.plan.intersections, ParamAllocator.issue next ∉ x.op.params) :
    Apart q.intersections ↔ ¬m.ProbeShared := by
  obtain ⟨keys, probe, probed, new, eq⟩ := h.exists_intersections_eq
  have old : m.plan.intersections = 0 + ((probe? m.inputs).elim 0 intersections +
      ((residual m.inputs).map intersections).sum + m.rhs.intersections) :=
    m.total_plan sparse_ownIntersections
  rw [zero_add, add_assoc] at old
  change _ = _ + m.besides at old
  rw [new, ScanSemiJoin.paramCost] at params
  cases existing : probe? m.inputs with
  | none =>
    rw [existing] at probed old eq
    have unshared : ¬m.ProbeShared := by simp [ScanSemiJoin.ProbeShared, existing]
    cases probed with
    | first probe =>
      cases probe
      have same : q.intersections = m.plan.intersections := eq.trans ((zero_add _).trans old.symm)
      simp only [same, apart, unshared, not_false_eq_true]
  | some x =>
    rw [existing] at probed old eq params
    cases probed with
    | @grown i j group merges added inhabited shared probe =>
      set x := node i (.ixIntersect group) merges with hx
      have whole : m.plan.intersections = {x} + ((merges.map intersections).sum + m.besides) :=
        old.trans (by rw [Option.elim_some, intersections, hx, total_node]; exact add_assoc _ _ _)
      have notBelow : x ∉ (merges.map intersections).sum := by
        rintro below
        obtain ⟨y, hy, inside⟩ := mem_sum_total.1 below
        exact not_mem_preorder_of_mem_inputs (p := x) hy (mem_intersections.1 inside).1
      have ne : node j (.ixIntersect group) (merges ++ [added]) ≠ x := by simp [hx]
      have same : (node j (.ixIntersect group) (merges ++ [added])).op.params = x.op.params := rfl
      rw [whole] at apart
      rw [ScanSemiJoin.probeShared_iff existing rfl, eq]
      refine (apart_exchange_iff apart same ne).trans (not_congr ?_)
      rw [Multiset.mem_add, or_iff_right notBelow]
    | @promoted j group _ _ _ again added lone rebuilt probe =>
      have merge : x.kind = .ixMerge := by
        cases lone
        rfl
      have unshared : ¬m.ProbeShared := by simp [ScanSemiJoin.ProbeShared, existing, merge]
      have start : some group.startRid = some (ParamAllocator.issue (next.advance 0)) := by
        cases lone
        exact congrArg List.head? params
      have new : ∀ y ∈ m.plan.intersections,
          (node j (.ixIntersect group) [again, added]).op.params ≠ y.op.params := by
        intro y hy equal
        have first : group.startRid = ParamAllocator.issue next := by simpa using start
        have own : ParamAllocator.issue next ∈ (node j (.ixIntersect group) [again, added]).op.params :=
          first ▸ List.mem_cons_self
        exact fresh y hy (equal ▸ own)
      have whole : q.intersections =
          {node j (.ixIntersect group) [again, added]} + m.plan.intersections := by
        rw [eq, old, Option.elim_some, Option.elim_some, intersections_eq_sum (by simp [merge])]
        rfl
      simp only [whole, apart_add apart new, unshared, not_false_eq_true]

end SemiJoinRule

/-- Whatever hands out the parameters, a plan that a rule returns for a semijoin keeps intersections with the
same parameters one node exactly if the intersection that is extended stands nowhere else below the semijoin. -/
theorem groupsApart_iff_of_attempt [ParamAllocator] {r : SemiJoinRule} {p q : Plan} {w w' : Workspace}
    {built : List Plan} (holds : w.Holds built) (hp : p ∈ built) (apart : p.GroupsApart)
    (fresh : ∀ x ∈ p.preorder, ParamAllocator.issue w.nextParam ∉ x.op.params)
    (h : (r.toRule.attempt p).Returns w (some q) w') :
    ∃ m : ScanSemiJoin, p = m.plan ∧ (q.GroupsApart ↔ ¬m.ProbeShared) := by
  obtain ⟨built', holds', -, has⟩ :=
    r.grows_attempt p w (some q) w' built h holds (by simpa using hp)
  have hq : q ∈ built' := has (by simp)
  cases SemiJoinRule.attempted_of_attempt h with
  | @rewritten m c _ _ semijoin rewrites params =>
    subst semijoin
    rw [Plan.groupsApart_iff_apart holds hp] at apart
    refine ⟨m, rfl, (Plan.groupsApart_iff_apart holds' hq).trans (rewrites.apart_iff params apart ?_)⟩
    exact fun x hx => fresh x (Plan.mem_intersections.1 hx).1

/-- A merge of a search of pairs, in the group of the parameters 0 and 1. -/
def Plan.pairsMerge (first limit : Nat) : Plan :=
  .node (first + 2) (.ixMerge (some ⟨.ofNat 0, .ofNat 1⟩) (.ofNat limit))
    [.node (first + 1) (.ixSearch ⟨(TableScan.ofPairs 0 [.onPairs 1 [0]]).table, .ofNat 1, .ofNat 0⟩ true false
      (some ⟨.ofNat 0, .ofNat 1⟩)) [.node first (.tableScan (.ofPairs 1 [])) []]]

/-- A scan of pairs through the intersection of two merges. -/
def Plan.pairsGroup : Plan :=
  .node 7 (.tableScan (.ofPairs 0 [.onPairs 1 [0]]))
    [.node 6 (.ixIntersect ⟨.ofNat 0, .ofNat 1⟩) [pairsMerge 0 2, pairsMerge 3 3]]

/-- A semijoin of the scan through the intersection with another plan. -/
def ScanSemiJoin.ofGroup (id : NodeId) (rhs : Plan) : ScanSemiJoin :=
  ⟨id, .ofNats [0], .ofNats [0], 7, .ofPairs 0 [.onPairs 1 [0]], Plan.pairsGroup.inputs, rhs⟩

theorem Plan.holds_pairsGroup : ({ nextNode := 8 } : Workspace).Holds pairsGroup.preorder := by
  apply Workspace.Holds.preorder
  · decide
  · decide
  · decide

/-- The semijoin of the scan with itself. -/
def ScanSemiJoin.groupTwice : ScanSemiJoin := .ofGroup 8 .pairsGroup

/-- The semijoin of the scan with another one. -/
def ScanSemiJoin.groupOnce : ScanSemiJoin := .ofGroup 9 (.node 8 (.tableScan (.ofPairs 1 [])) [])

/-- A scan that both sides of a semijoin read goes on reading its intersection on the right, with the
parameters of the new one on the left. -/
theorem not_groupsApart_of_groupTwice :
    ∃ (built : List Plan) (q : Plan) (w : Workspace),
      ({ nextNode := 9, nextParam := .ofNat 4 } : Workspace).Holds built ∧
        ScanSemiJoin.groupTwice.plan ∈ built ∧ ScanSemiJoin.groupTwice.plan.GroupsApart ∧
        (∀ x ∈ ScanSemiJoin.groupTwice.plan.preorder, ∀ n ∈ x.op.params, n.toNat < 4) ∧
        ((⟨.intersect, {}⟩ : SemiJoinRule).toRule.attempt ScanSemiJoin.groupTwice.plan).Returns
          { nextNode := 9, nextParam := .ofNat 4 } (some q) w ∧
        ¬q.GroupsApart := by
  have scan : Plan.pairsGroup ∈ Plan.pairsGroup.preorder := Plan.self_mem_preorder _
  have sides : [.pairsGroup, .pairsGroup] ⊆ Plan.pairsGroup.preorder := by simp [scan]
  have holds : ({ nextNode := 9 } : Workspace).Holds
      (ScanSemiJoin.groupTwice.plan :: Plan.pairsGroup.preorder) :=
    Plan.holds_pairsGroup.cons_fresh sides rfl
  have attempt : ((⟨.intersect, {}⟩ : SemiJoinRule).toRule.attempt ScanSemiJoin.groupTwice.plan).leadsTo
      { nextNode := 9, nextParam := .ofNat 4 } (fun q? _ => q?.any fun q => !decide q.GroupsApart) := by
    decide +kernel
  obtain ⟨q, w, returned, apart⟩ := Planner.exists_some_of_leadsTo attempt
  refine ⟨_, q, w, holds.mono (Nat.le_refl 9), List.mem_cons_self, ?_, ?_, returned, by simpa using apart⟩
  · decide +kernel
  · decide +kernel

/-- A scan that is read on the left only is rewritten to a plan with one intersection. -/
theorem groupsApart_of_groupOnce :
    ∃ (q : Plan) (w : Workspace),
      ((⟨.intersect, {}⟩ : SemiJoinRule).toRule.attempt ScanSemiJoin.groupOnce.plan).Returns
        { nextNode := 10, nextParam := .ofNat 4 } (some q) w ∧ q.GroupsApart := by
  have other : ({ nextNode := 9 } : Workspace).Holds (ScanSemiJoin.groupOnce.rhs :: Plan.pairsGroup.preorder) :=
    Plan.holds_pairsGroup.cons_fresh (List.nil_subset _) rfl
  have scan : Plan.pairsGroup ∈ Plan.pairsGroup.preorder := Plan.self_mem_preorder _
  have sides : [.pairsGroup, ScanSemiJoin.groupOnce.rhs] ⊆
      ScanSemiJoin.groupOnce.rhs :: Plan.pairsGroup.preorder := by simp [scan]
  have holds : ({ nextNode := 10 } : Workspace).Holds
      (ScanSemiJoin.groupOnce.plan :: ScanSemiJoin.groupOnce.rhs :: Plan.pairsGroup.preorder) :=
    other.cons_fresh sides rfl
  have held : ({ nextNode := 10, nextParam := .ofNat 4 } : Workspace).Holds _ := holds.mono (Nat.le_refl 10)
  have attempt : ((⟨.intersect, {}⟩ : SemiJoinRule).toRule.attempt ScanSemiJoin.groupOnce.plan).leadsTo
      { nextNode := 10, nextParam := .ofNat 4 } (fun q? _ => q?.any fun _ => true) := by
    decide +kernel
  obtain ⟨q, w, returned, -⟩ := Planner.exists_some_of_leadsTo attempt
  obtain ⟨m, same, apart⟩ := groupsApart_iff_of_attempt held List.mem_cons_self
    (by decide +kernel) (by decide +kernel) returned
  obtain rfl := ScanSemiJoin.plan_injective same
  refine ⟨q, w, returned, apart.2 ?_⟩
  rintro ⟨x, hx, -, inside⟩
  cases hx
  simp [ScanSemiJoin.groupOnce, ScanSemiJoin.ofGroup, Plan.pairsGroup, Plan.residual, Plan.probe?,
    Plan.isProbe, Operator.isProbe] at inside

end QueryPlan
