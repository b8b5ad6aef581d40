import QueryPlan.Proofs.IndexChoice
import QueryPlan.Proofs.Probes
import QueryPlan.Proofs.SearchKeys
import QueryPlan.SemiJoinRule

/-!
# What the semijoin rule builds

The plan that a rule returns for a semijoin is described by its parts: the index chosen for the
columns of the left keys, the plan of the search keys, the row id source with the new probe, and the
scan over it. A rule that declines takes no parameter (`SemiJoinRule.Attempted`).
-/
namespace QueryPlan

namespace Pattern

theorem bind?_operand_nil {kind : OperatorKind} {p : Plan} {bound : List Plan} :
    (operand kind []).bind? p = some bound ↔ p.kind = kind ∧ bound = [p] := by
  simp only [bind?, bindAll?]
  split <;> simp_all [eq_comm]

theorem bind?_operand_singleton {kind : OperatorKind} {child : Pattern} {p : Plan} {bound : List Plan} :
    (operand kind [child]).bind? p = some bound ↔
      p.kind = kind ∧ ∃ x xs b, p.inputs = x :: xs ∧ child.bind? x = some b ∧ bound = p :: b := by
  simp only [bind?]
  split
  · next h =>
    cases p.inputs with
    | nil => simp [bindAll?]
    | cons x xs => simp [bindAll?, h, eq_comm (a := bound)]
  · next h => simp [h]

mutual
/-- A match binds nodes of the plan. -/
theorem bind?_subset (c : Pattern) (p : Plan) {bound : List Plan} (h : c.bind? p = some bound) :
    bound ⊆ p.preorder := by
  match c with
  | operand kind children =>
    rw [bind?] at h
    split at h
    · obtain ⟨below, hbelow, rfl⟩ := Option.map_eq_some_iff.1 h
      have sub := bindAll?_subset children p.inputs hbelow
      obtain ⟨i, op, inputs⟩ := p
      rw [Plan.preorder_node]
      exact List.cons_subset_cons _ sub
    · cases h
theorem bindAll?_subset (cs : List Pattern) (ps : List Plan) {bound : List Plan}
    (h : bindAll? cs ps = some bound) : bound ⊆ ps.flatMap Plan.preorder := by
  match cs, ps with
  | [], _ =>
    cases h
    exact List.nil_subset _
  | _ :: _, [] => cases h
  | c :: cs, p :: ps =>
    simp only [bindAll?, Option.bind_eq_bind, Option.bind_eq_some_iff] at h
    obtain ⟨first, hfirst, others, hothers, eq⟩ := h
    cases eq
    rw [List.flatMap_cons]
    refine List.append_subset.2 ⟨fun x hx => ?_, fun x hx => ?_⟩
    · exact List.mem_append_left _ (bind?_subset c p hfirst hx)
    · exact List.mem_append_right _ (bindAll?_subset cs ps hothers hx)
end

end Pattern

namespace ScanShape

/-- The operators bound below the scan over `inputs` when the pattern of the shape matches. -/
inductive Binds : ScanShape → List Plan → List Plan → Prop
  | scan {inputs : List Plan} : Binds .scan inputs []
  | intersect {first : Plan} {others : List Plan} (kind : first.kind = .ixIntersect) :
      Binds .intersect (first :: others) [first]
  | merge {first search : Plan} {others more : List Plan} (kind : first.kind = .ixMerge)
      (below : first.inputs = search :: more) (searchKind : search.kind = .ixSearch) :
      Binds .merge (first :: others) [first, search]

/-- A match binds a semijoin, its left side, which is a scan, and what the shape asks for below the
scan. -/
theorem exists_of_bind? {shape : ScanShape} {p : Plan} {bound : List Plan}
    (h : shape.pattern.bind? p = some bound) :
    p.kind = .semiJoin ∧ ∃ lhs others rest, p.inputs = lhs :: others ∧ lhs.kind = .tableScan ∧
      bound = p :: lhs :: rest ∧ Binds shape lhs.inputs rest := by
  cases shape with
  | scan =>
    obtain ⟨kind, lhs, others, b, inputs, hb, rfl⟩ := Pattern.bind?_operand_singleton.1 h
    obtain ⟨scanKind, rfl⟩ := Pattern.bind?_operand_nil.1 hb
    exact ⟨kind, lhs, others, [], inputs, scanKind, rfl, .scan⟩
  | intersect =>
    obtain ⟨kind, lhs, others, b, inputs, hb, rfl⟩ := Pattern.bind?_operand_singleton.1 h
    obtain ⟨scanKind, first, others', b', inputs', hb', rfl⟩ := Pattern.bind?_operand_singleton.1 hb
    obtain ⟨probeKind, rfl⟩ := Pattern.bind?_operand_nil.1 hb'
    exact ⟨kind, lhs, others, [first], inputs, scanKind, rfl, inputs' ▸ .intersect probeKind⟩
  | merge =>
    obtain ⟨kind, lhs, others, b, inputs, hb, rfl⟩ := Pattern.bind?_operand_singleton.1 h
    obtain ⟨scanKind, first, others', b', inputs', hb', rfl⟩ := Pattern.bind?_operand_singleton.1 hb
    obtain ⟨probeKind, search, more, b'', below, hb'', rfl⟩ := Pattern.bind?_operand_singleton.1 hb'
    obtain ⟨searchKind, rfl⟩ := Pattern.bind?_operand_nil.1 hb''
    exact ⟨kind, lhs, others, [first, search], inputs, scanKind, rfl,
      inputs' ▸ .merge probeKind below searchKind⟩

end ScanShape

namespace TableScan

theorem forall₂_of_joinColumns {s : TableScan} {lhsKeys : ColumnList} {joinCols : List ColumnId}
    (h : s.joinColumns lhsKeys = .ok joinCols) :
    List.Forall₂ (fun key c => s.column? key.toNat = some c) lhsKeys joinCols := by
  refine (mapM_eq_ok_iff.1 h).imp fun key c hc => ?_
  split at hc
  · next column =>
    cases hc
    exact column
  · cases hc

/-- A join column stands for the left key at the same position. -/
theorem exists_key_of_joinColumns {s : TableScan} {lhsKeys : ColumnList} {joinCols : List ColumnId}
    (h : s.joinColumns lhsKeys = .ok joinCols) {i : Nat} {c : ColumnId} (hc : joinCols[i]? = some c) :
    ∃ key, lhsKeys[i]? = some key ∧ s.column? key.toNat = some c :=
  exists_getElem?_left_of_forall₂ (forall₂_of_joinColumns h) hc

end TableScan

/-- A semijoin whose left side is a table scan over some inputs. -/
structure ScanSemiJoin where
  id : NodeId
  lhsKeys : ColumnList
  rhsKeys : ColumnList
  scanId : NodeId
  scan : TableScan
  inputs : List Plan
  rhs : Plan

namespace ScanSemiJoin

def lhs (m : ScanSemiJoin) : Plan := .node m.scanId (.tableScan m.scan) m.inputs

def plan (m : ScanSemiJoin) : Plan := .node m.id (.semiJoin m.lhsKeys m.rhsKeys) [m.lhs, m.rhs]

theorem lhs_mem_inputs (m : ScanSemiJoin) : m.lhs ∈ m.plan.inputs := List.mem_cons_self

theorem rhs_mem_inputs (m : ScanSemiJoin) : m.rhs ∈ m.plan.inputs :=
  List.mem_cons_of_mem _ (List.mem_singleton_self _)

theorem rowType_lhs (m : ScanSemiJoin) : m.lhs.rowType = m.scan.rowType := by
  simp [lhs, Operator.output, Operator.ownOutput?]

theorem rowType_plan (m : ScanSemiJoin) : m.plan.rowType = m.scan.rowType := by
  simp [plan, rowType_lhs, Operator.output, Operator.ownOutput?]

/-- How the scan reads an index of its table. -/
def source (m : ScanSemiJoin) (index : Index) : IndexSource :=
  ⟨m.scan.table, index.id, m.scan.connection⟩

/-- How many parameters it takes to rewrite the semijoin. -/
def paramCost (m : ScanSemiJoin) : Nat := Plan.paramCost (Plan.probe? m.inputs)

/-- The parameters that the scan `q` has in place of the semijoin and the left side has not, in the
order in which they are taken. -/
def newParams (m : ScanSemiJoin) (q : Plan) : List ParamId :=
  q.inputs.head?.elim [] (Plan.newParams (Plan.probe? m.inputs))

theorem plan_injective : Function.Injective plan := by
  rintro ⟨⟩ ⟨⟩ h
  simp_all [plan, lhs]

end ScanSemiJoin

/-- An unclustered index on columns of a table of pairs. -/
def Index.onPairs (id : Nat) (keys : List Nat) : Index := ⟨.ofNat id, "pairs_key", .ofNats keys, false⟩

def TableScan.ofPairs (table : Nat) (indexes : List Index) : TableScan :=
  ⟨⟨.ofNat table, "pairs", [⟨"first", .bigint⟩, ⟨"second", .bigint⟩], indexes⟩, [], .ofNat 0, none, false⟩

/-- A semijoin of two tables of pairs on columns of the same positions. The table on the left has
the indexes. -/
def ScanSemiJoin.ofPairs (indexes : List Index) (keys : List Nat) : ScanSemiJoin :=
  ⟨2, .ofNats keys, .ofNats keys, 0, .ofPairs 0 indexes, [], .node 1 (.tableScan (.ofPairs 1 [])) []⟩

/-- Some pairs, as an input of a scan or as search keys. -/
def Plan.morePairs : Plan := .node 3 (.tableScan (.ofPairs 2 [])) []

namespace SemiJoinRule

open ScanShape

theorem probe?_cons_of_kind {p : Plan} {others : List Plan}
    (h : p.kind = .ixMerge ∨ p.kind = .ixIntersect) :
    Plan.probe? (p :: others) = some p :=
  Plan.probe?_eq_some_iff.2 ⟨rfl, Plan.isProbe_iff.2 h⟩

theorem probe?_eq_none_of_undeferred {options : SemiJoinOptions} {s : TableScan} {inputs : List Plan}
    (h : (SemiJoinRule.mk .scan options).defers s inputs = false) : Plan.probe? inputs = none := by
  simp only [defers, decide_true, Bool.true_and, Bool.or_eq_false_iff] at h
  simpa using h.2

/-- The probe that a rule intersects with is the row id source of the scan, if the scan has one. -/
theorem existing_eq_probe? {r : SemiJoinRule} {s : TableScan} {inputs rest : List Plan}
    (binds : Binds r.shape inputs rest) (undeferred : r.defers s inputs = false) :
    r.existing s inputs rest.head? = .ok (Plan.probe? inputs) := by
  obtain ⟨shape, options⟩ := r
  cases binds with
  | scan => simp [existing, probe?_eq_none_of_undeferred undeferred]
  | intersect kind =>
    simp [existing, Plan.same, probe?_cons_of_kind (.inr kind)]
  | merge kind =>
    simp [existing, Plan.same, probe?_cons_of_kind (.inl kind)]

/-- The index that the rule chooses for a semijoin, with the join keys assigned to it. -/
def candidate? (r : SemiJoinRule) (m : ScanSemiJoin) : Option Candidate :=
  match m.scan.joinColumns m.lhsKeys with
  | .ok joinCols => (Selection.ofIndexes m.scan.table.unclustered joinCols r.options.earlyExit).choice
  | .error _ => none

/-- `r.Rewrites m c q`: the rule `r` may return `q` for the semijoin `m`, through the index of `c`. -/
inductive Rewrites (r : SemiJoinRule) (m : ScanSemiJoin) (c : Candidate) : Plan → Prop
  | intro {n : NodeId} {keyPlan probe : Plan} {joinCols : List ColumnId} {keys : List SearchKey}
      (columns : m.scan.joinColumns m.lhsKeys = .ok joinCols)
      (choice : (Selection.ofIndexes m.scan.table.unclustered joinCols r.options.earlyExit).choice = some c)
      (keyed : c.assignment.mapM
        (SearchKey.ofJoinKey m.lhsKeys m.rhsKeys m.scan.rowType m.rhs.rowType) = .ok keys)
      (searched : SearchKey.KeyPlan keys m.rhs keyPlan)
      (probed : Plan.ExtendedProbe (m.source c.index) keyPlan (Plan.probe? m.inputs) probe)
      (accepted : m.scan.check = .ok ()) :
      Rewrites r m c (.node n (.tableScan m.scan) (probe :: Plan.residual m.inputs))

namespace Rewrites

variable {r : SemiJoinRule} {m : ScanSemiJoin} {c : Candidate} {q : Plan}

theorem chosen (h : r.Rewrites m c q) : r.candidate? m = some c := by
  obtain ⟨columns, choice, -, -, -, -⟩ := h
  simp only [candidate?, columns]
  exact choice

theorem mem_unclustered (h : r.Rewrites m c q) : c.index ∈ m.scan.table.unclustered := by
  obtain ⟨-, choice, -, -, -, -⟩ := h
  exact (Selection.exists_of_choice choice).1

theorem size_le (h : r.Rewrites m c q) : c.size ≤ c.index.keys.length := by
  obtain ⟨-, choice, -, -, -, -⟩ := h
  rw [Candidate.size, (Selection.exists_of_choice choice).2]
  exact KeyAssignment.length_ofKeys_le _ _

/-- The index is searched with positions of join keys. -/
theorem assignment_subset (h : r.Rewrites m c q) : c.assignment ⊆ List.range m.lhsKeys.length := by
  obtain ⟨columns, choice, -, -, -, -⟩ := h
  intro i hi
  rw [(Selection.exists_of_choice choice).2] at hi
  rw [List.mem_range, (TableScan.forall₂_of_joinColumns columns).length_eq]
  exact KeyAssignment.lt_length_of_mem_ofKeys hi

end Rewrites

theorem yields_chooseIndex {indexes : List Index} {joinCols : List ColumnId} {earlyExit : Bool}
    {c? : Option Candidate} (h : (Planner.chooseIndex indexes joinCols earlyExit).Yields c?) :
    c? = (Selection.ofIndexes indexes joinCols earlyExit).choice := by
  obtain ⟨-, -, h⟩ := Planner.yields_bind h
  exact Planner.yields_pure.1 h

theorem succeeds_chooseIndex (indexes : List Index) (joinCols : List ColumnId) (earlyExit : Bool) :
    (Planner.chooseIndex indexes joinCols earlyExit).Succeeds :=
  (Planner.succeeds_forM fun _ _ => Planner.succeeds_report _).bind fun _ _ => Planner.succeeds_pure _

theorem keepsParams_chooseIndex (indexes : List Index) (joinCols : List ColumnId) (earlyExit : Bool) :
    (Planner.chooseIndex indexes joinCols earlyExit).KeepsParams :=
  (Planner.keepsParams_forM fun _ _ => Planner.keepsParams_report _).bind
    fun _ => Planner.keepsParams_pure _

/-- `r.Attempted p next q? next'`: the rule `r`, tried on the plan `p`, may return `q?` where the next
request for a parameter has the number `next`, and afterwards it has the number `next'`. -/
inductive Attempted [ParamAllocator] (r : SemiJoinRule) (p : Plan) (next : ParamId) : Option Plan → ParamId → Prop
  | declined : Attempted r p next none next
  | rewritten {m : ScanSemiJoin} {c : Candidate} {q : Plan} {next' : ParamId} (semijoin : p = m.plan)
      (rewrites : r.Rewrites m c q) (params : m.newParams q = ParamAllocator.issued next m.paramCost)
      (taken : next' = next.advance m.paramCost) : Attempted r p next (some q) next'

theorem attempted_of_report [ParamAllocator] {r : SemiJoinRule} {p : Plan} {q? : Option Plan} {w w' : Workspace}
    {e : Event}
    (h : (Planner.report e >>= fun _ => pure none : Planner (Option Plan)).Returns w q? w') :
    r.Attempted p w.nextParam q? w'.nextParam := by
  obtain ⟨_, v, reported, h⟩ := Planner.returns_bind.1 h
  obtain rfl := Planner.returns_report.1 reported
  obtain ⟨rfl, rfl⟩ := Planner.returns_pure.1 h
  exact .declined

theorem attempted_of_throughIndex [ParamAllocator] {r : SemiJoinRule} {m : ScanSemiJoin} {rest : List Plan}
    {q? : Option Plan} {w w' : Workspace} (binds : Binds r.shape m.inputs rest)
    (h : (r.throughIndex m.lhsKeys m.rhsKeys m.scan m.inputs m.rhs rest.head?).Returns w q? w') :
    r.Attempted m.plan w.nextParam q? w'.nextParam := by
  unfold throughIndex at h
  split at h
  · exact attempted_of_report h
  next undeferred =>
  split at h
  · exact attempted_of_report h
  obtain ⟨existing, _, looked, h⟩ := Planner.returns_bind.1 h
  obtain ⟨joinCols, _, mapped, h⟩ := Planner.returns_bind.1 h
  obtain ⟨_, _, checked, h⟩ := Planner.returns_bind.1 h
  obtain ⟨c?, v, choice, h⟩ := Planner.returns_bind.1 h
  obtain ⟨hexisting, rfl⟩ := Planner.returns_ofExcept.1 looked
  obtain ⟨columns, rfl⟩ := Planner.returns_ofExcept.1 mapped
  obtain ⟨-, rfl⟩ := Planner.returns_ofExcept.1 checked
  rw [existing_eq_probe? binds (by simpa using undeferred)] at hexisting
  cases hexisting
  rw [← keepsParams_chooseIndex _ _ _ _ _ _ choice]
  cases c? with
  | none => exact attempted_of_report h
  | some c =>
    obtain ⟨_, v₁, reported, h⟩ := Planner.returns_bind.1 h
    obtain ⟨keyPlan, v₂, hkeys, h⟩ := Planner.returns_bind.1 h
    obtain ⟨probe, v₃, hprobe, h⟩ := Planner.returns_bind.1 h
    obtain ⟨scan, v₄, hscan, h⟩ := Planner.returns_bind.1 h
    obtain ⟨keys, keyed, searched⟩ := SearchKey.yields_plan hkeys.yields
    obtain ⟨probed, params, next⟩ := Plan.returns_extendProbe hprobe
    obtain ⟨accepted, rfl, rfl⟩ := Plan.returns_build.1 hscan
    obtain ⟨rfl, rfl⟩ := Planner.returns_pure.1 h
    have chosen := (yields_chooseIndex choice.yields).symm
    have before : v₂.nextParam = v.nextParam := by
      rw [SearchKey.keepsParams_plan _ _ _ hkeys, Planner.keepsParams_report _ _ _ _ reported]
    rw [before] at params next
    exact .rewritten rfl (.intro columns chosen keyed searched probed accepted) params next

/-- What a match binds is rewritten if the plan is a semijoin of two inputs; otherwise the rule
declines. -/
theorem transform_cases [ParamAllocator] {r : SemiJoinRule} {p : Plan} {bound : List Plan}
    (h : r.shape.pattern.bind? p = some bound) :
    (∃ (m : ScanSemiJoin) (rest : List Plan), p = m.plan ∧ Binds r.shape m.inputs rest ∧
      r.transform bound = r.throughIndex m.lhsKeys m.rhsKeys m.scan m.inputs m.rhs rest.head?) ∨
    (∀ m : ScanSemiJoin, p ≠ m.plan) ∧ r.transform bound = pure none := by
  obtain ⟨kind, lhs, others, rest, inputs, scanKind, rfl, binds⟩ := exists_of_bind? h
  obtain ⟨i, op, xs⟩ := p
  obtain ⟨j, op', zs⟩ := lhs
  unfold transform
  split
  · next i' lhsKeys rhsKeys a rhs j' s zs' rest' eq =>
    cases eq
    cases inputs
    exact .inl ⟨⟨i, lhsKeys, rhsKeys, j, s, zs, rhs⟩, rest, rfl, binds, rfl⟩
  · next other =>
    refine .inr ⟨fun m eq => ?_, rfl⟩
    cases eq
    cases inputs
    exact other _ _ _ _ _ _ _ _ _ rfl

theorem attempted_of_transform [ParamAllocator] {r : SemiJoinRule} {p : Plan} {bound : List Plan} {q? : Option Plan}
    {w w' : Workspace} (h : r.shape.pattern.bind? p = some bound)
    (hq : (r.transform bound).Returns w q? w') : r.Attempted p w.nextParam q? w'.nextParam := by
  obtain ⟨m, rest, rfl, binds, eq⟩ | ⟨-, eq⟩ := transform_cases h
  · rw [eq] at hq
    exact attempted_of_throughIndex binds hq
  · rw [eq] at hq
    obtain ⟨rfl, rfl⟩ := Planner.returns_pure.1 hq
    exact .declined

theorem attempted_of_attempt [ParamAllocator] {r : SemiJoinRule} {p : Plan} {q? : Option Plan}
    {w w' : Workspace} (h : (r.toRule.attempt p).Returns w q? w') : r.Attempted p w.nextParam q? w'.nextParam := by
  unfold Rule.attempt at h
  split at h
  · next bound hb => exact attempted_of_transform hb h
  · obtain ⟨rfl, rfl⟩ := Planner.returns_pure.1 h
    exact .declined

/-- What a rule returns when it is tried on a plan is a rewriting of that plan. -/
theorem rewrites_of_attempt [ParamAllocator] {r : SemiJoinRule} {p q : Plan}
    (h : (r.toRule.attempt p).Yields (some q)) :
    ∃ m c, p = m.plan ∧ r.Rewrites m c q := by
  obtain ⟨w, w', h⟩ := h
  cases attempted_of_attempt h with
  | rewritten semijoin rewrites => exact ⟨_, _, semijoin, rewrites⟩

end SemiJoinRule

namespace RuleSet

variable {rule : Rule} {p : Plan}

/-- An offer is what the rule returns when it is tried on the operator. The match that is reported
before takes neither identities nor parameters. -/
theorem returns_offer {w w' : Workspace} {alts : List Alternative}
    (h : (offer rule p).Returns w alts w') :
    ∃ v q?, v.nextNode = w.nextNode ∧ v.nextParam = w.nextParam ∧ (rule.attempt p).Returns v q? w' ∧
      alts = (q?.map (Alternative.mk rule.name p)).toList := by
  unfold offer at h
  unfold Rule.attempt
  split at h
  · next unmatched =>
    obtain ⟨rfl, rfl⟩ := Planner.returns_pure.1 h
    rw [unmatched]
    exact ⟨w', none, rfl, rfl, Planner.returns_pure.2 ⟨rfl, rfl⟩, rfl⟩
  · next bound matched =>
    obtain ⟨_, v, reported, h⟩ := Planner.returns_bind.1 h
    obtain ⟨q?, v', transformed, h⟩ := Planner.returns_bind.1 h
    have kept := Planner.returns_report.1 reported
    rw [matched]
    cases q? with
    | none =>
      obtain ⟨rfl, rfl⟩ := Planner.returns_pure.1 h
      exact ⟨v, none, by rw [kept], by rw [kept], transformed, rfl⟩
    | some q =>
      obtain ⟨rfl, rfl⟩ := Planner.returns_pure.1 h
      exact ⟨v, some q, by rw [kept], by rw [kept], transformed, rfl⟩

theorem succeeds_offer (h : (rule.attempt p).Succeeds) : (offer rule p).Succeeds := by
  unfold Rule.attempt at h
  unfold offer
  cases matched : rule.match? p with
  | none => exact Planner.succeeds_pure []
  | some bound =>
    rw [matched] at h
    apply (Planner.succeeds_report _).bind
    intro _ _
    apply h.bind
    intro q? _
    cases q? with
    | none => exact Planner.succeeds_pure []
    | some q => exact Planner.succeeds_pure _

end RuleSet

end QueryPlan
