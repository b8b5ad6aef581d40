import QueryPlan.Proofs.ProbeExtension
import QueryPlan.Proofs.Registrations

/-!
# What a rule spends

Parameters are taken only while a search is added to a row id source, and once the first one is taken
nothing fails any more: the index was looked up in the table, and the operators that are built again were
checked before. So a rule that declines or fails leaves the next parameter as it was, and a rule that
returns a plan takes four for a merge and one otherwise (`SemiJoinRule.params_of_transform`). The
operators it transforms need not come from a match.
-/
namespace QueryPlan

theorem Plan.spends_extendProbe [ParamAllocator] {existing : Option Plan} {source : IndexSource} {index : Index}
    (known : source.table.index source.index = .ok index) (checked : ∀ x ∈ existing, x.Checked)
    (keys : Plan) : (extendProbe existing keys source).Spends fun _ => paramCost existing where
  returned _ _ _ h := (returns_extendProbe h).2.2
  failed w e w' h := by
    rcases extendable_or_refused checked with extendable | ⟨fault, refused⟩
    · exact absurd h (succeeds_extendProbe known extendable).not_fails
    · cases h.symm.trans (fails_extendProbe_of_refused refused w)
      rfl

theorem SearchKey.spends_plan (lhsKeys rhsKeys : ColumnList) (lhsRow : RowType) (rhs : Plan)
    (a : KeyAssignment) : (plan lhsKeys rhsKeys lhsRow rhs a).Spends fun _ => 0 := by
  cases keyed : a.mapM (ofJoinKey lhsKeys rhsKeys lhsRow rhs.rowType) with
  | ok keys => exact (succeeds_plan keyed).spends keepsParams_plan
  | error e =>
    rw [plan_eq, keyed]
    exact (Planner.spends_ofExcept _).bind fun _ none => nomatch Planner.yields_ofExcept.1 none

namespace SemiJoinRule

/-- The row id source that a rule extends if `below` is bound in the place below the scan. The bare shape
has no such place. -/
def extended? (r : SemiJoinRule) (below : Option Plan) : Option Plan :=
  if r.shape = .scan then none else below

variable {r : SemiJoinRule}

theorem eq_extended?_of_existing {s : TableScan} {inputs : List Plan} {below old : Option Plan}
    (h : r.existing s inputs below = .ok old) : old = r.extended? below := by
  unfold existing at h
  split at h
  · next bare =>
    cases h
    exact (if_pos bare).symm
  · next longer =>
    split at h
    · cases h
      exact (if_neg longer).symm
    · cases h
  · cases h

theorem checked_extended? {below : Option Plan} (checked : ∀ x ∈ below, x.Checked) :
    ∀ x ∈ r.extended? below, x.Checked := by
  unfold extended?
  split
  · nofun
  · exact checked

theorem spends_chooseIndex (indexes : List Index) (joinCols : List ColumnId) (earlyExit : Bool) :
    (Planner.chooseIndex indexes joinCols earlyExit).Spends fun _ => 0 :=
  (succeeds_chooseIndex indexes joinCols earlyExit).spends (keepsParams_chooseIndex indexes joinCols earlyExit)

theorem spends_throughIndex [ParamAllocator] {lhsKeys rhsKeys : ColumnList} {s : TableScan}
    {inputs : List Plan} {rhs : Plan} {below : Option Plan} (accepted : s.check = .ok ())
    (checked : ∀ x ∈ below, x.Checked) :
    (r.throughIndex lhsKeys rhsKeys s inputs rhs below).Spends fun q? =>
      if q?.isSome then Plan.paramCost (r.extended? below) else 0 := by
  unfold throughIndex
  split
  · exact (Planner.spends_report _).bind fun _ _ => Planner.spends_pure rfl
  split
  · exact (Planner.spends_report _).bind fun _ _ => Planner.spends_pure rfl
  refine (Planner.spends_ofExcept _).bind fun existing looked => ?_
  refine (Planner.spends_ofExcept _).bind fun joinCols _ => ?_
  refine (Planner.spends_ofExcept _).bind fun _ _ => ?_
  refine (spends_chooseIndex _ _ _).bind fun c? choice => ?_
  cases c? with
  | none => exact (Planner.spends_report _).bind fun _ _ => Planner.spends_pure rfl
  | some c =>
    refine (Planner.spends_report _).bind fun _ _ => ?_
    refine (SearchKey.spends_plan _ _ _ _ _).bind fun keys _ => ?_
    obtain rfl := eq_extended?_of_existing (Planner.yields_ofExcept.1 looked)
    have mem := (Selection.exists_of_choice (yields_chooseIndex choice).symm).1
    obtain ⟨index, known⟩ := Table.exists_index_of_mem (List.mem_of_mem_filter mem)
    -- The scan is built again over other inputs, and its check does not look at them.
    refine (Plan.spends_extendProbe known (checked_extended? checked) keys).bind_succeeds (fun probe _ => ?_)
      (fun probe => ?_) (fun probe q? built => ?_)
    · have check : (Operator.tableScan s).check ((probe :: Plan.residual inputs).map Plan.rowType) = .ok () :=
        accepted
      exact (Plan.succeeds_build check).bind fun _ _ => Planner.succeeds_pure _
    · exact (Plan.keepsParams_build _ _).bind fun _ => Planner.keepsParams_pure _
    · obtain ⟨q, -, built⟩ := Planner.yields_bind built
      obtain rfl := Planner.yields_pure.1 built
      rfl

theorem spends_transform [ParamAllocator] {bound : List Plan} (checked : ∀ p ∈ bound, p.Checked) :
    (r.transform bound).Spends fun q? =>
      if q?.isSome then Plan.paramCost (r.extended? bound[2]?) else 0 := by
  unfold transform
  split
  · next i lhsKeys rhsKeys lhs rhs j s inputs rest =>
    have accepted : s.check = .ok () := (checked (.node j (.tableScan s) inputs) (by simp)).root
    have below : rest.head? = (.node i (.semiJoin lhsKeys rhsKeys) [lhs, rhs] ::
        .node j (.tableScan s) inputs :: rest)[2]? := List.head?_eq_getElem?
    rw [below]
    exact spends_throughIndex accepted fun x hx => checked x (List.mem_of_getElem? hx)
  · exact Planner.spends_pure rfl

/-- A rule that transforms checked operators, whether they belong together or not, takes no parameter
unless it returns a plan. Then it takes four if it extends a merge, and one otherwise. -/
theorem params_of_transform [ParamAllocator] (r : SemiJoinRule) {bound : List Plan}
    (checked : ∀ p ∈ bound, p.Checked) (w : Workspace) :
    ((∀ q, ((r.transform bound).outcome w).1 ≠ .ok (some q)) →
      ((r.transform bound).outcome w).2.nextParam = w.nextParam) ∧
    ∀ q, ((r.transform bound).outcome w).1 = .ok (some q) →
      ((∃ x ∈ r.extended? bound[2]?, x.kind = .ixMerge) →
        ((r.transform bound).outcome w).2.nextParam = w.nextParam.advance 4) ∧
      ((¬∃ x ∈ r.extended? bound[2]?, x.kind = .ixMerge) →
        ((r.transform bound).outcome w).2.nextParam = w.nextParam.advance 1) := by
  have spends : (r.transform bound).Spends fun q? =>
      if q?.isSome then Plan.paramCost (r.extended? bound[2]?) else 0 := spends_transform checked
  constructor
  · intro without
    rcases result : (r.transform bound).outcome w with ⟨e | q?, v⟩
    · exact spends.failed w e v result
    · cases q? with
      | none => exact (spends.returned w none v result).trans (Id.advance_zero _)
      | some q => exact absurd (congrArg Prod.fst result) (without q)
  · intro q rewritten
    have next : ((r.transform bound).outcome w).2.nextParam =
        w.nextParam.advance (Plan.paramCost (r.extended? bound[2]?)) :=
      spends.returned w (some q) _ (Prod.ext rewritten rfl)
    rw [next]
    cases r.extended? bound[2]? with
    | none => exact ⟨nofun, fun _ => rfl⟩
    | some x =>
      refine ⟨?_, fun other => ?_⟩
      · rintro ⟨_, ⟨⟩, merge⟩
        rw [Plan.paramCost, if_pos merge]
      · rw [Plan.paramCost, if_neg fun merge => other ⟨x, rfl, merge⟩]

/-- Operators for the rule for merges: a semijoin of pairs, and a scan that it does not read. The merge
below the scan reads no search. -/
def unrelatedOperators : List Plan :=
  [(ScanSemiJoin.ofPairs [] [0, 1]).plan, (ScanSemiJoin.overInputs [Plan.bareMerge]).lhs, Plan.bareMerge]

/-- A second search takes four parameters. None is taken for unrelated operators whose merge is refused. -/
theorem params_of_transform_pairs :
    (∃ bound q v, ScanShape.merge.pattern.bind? (ScanSemiJoin.overInputs [Plan.pairsProbe]).plan = some bound ∧
      ((mk .merge {}).transform bound).Returns { nextNode := 10 } (some q) v ∧ v.nextParam = .ofNat 4) ∧
    ∀ w, (((mk .merge {}).transform unrelatedOperators).outcome w).1 =
        .error (.malformedProbe "pairs" .noSearch) ∧
      (((mk .merge {}).transform unrelatedOperators).outcome w).2.nextParam = w.nextParam := by
  refine ⟨?_, fun w => ?_⟩
  · obtain ⟨bound, matched⟩ : ∃ bound,
        ScanShape.merge.pattern.bind? (ScanSemiJoin.overInputs [Plan.pairsProbe]).plan = some bound :=
      ⟨_, rfl⟩
    have extends_merge : ∃ x ∈ (mk .merge {}).extended? bound[2]?, x.kind = .ixMerge := by
      cases matched
      exact ⟨Plan.pairsProbe, rfl, rfl⟩
    have checked : ∀ p ∈ bound, p.Checked := by
      cases matched
      decide
    have run : ((mk .merge {}).transform bound).leadsTo { nextNode := 10 }
        (fun q? _ => q?.any fun _ => true) := by
      cases matched
      decide +kernel
    obtain ⟨q, v, returned, -⟩ := Planner.exists_some_of_leadsTo run
    obtain ⟨-, spent⟩ := params_of_transform ⟨.merge, {}⟩ checked { nextNode := 10 }
    have four := (spent q (congrArg Prod.fst returned)).1 extends_merge
    rw [returned] at four
    exact ⟨bound, q, v, matched, returned, four⟩
  · have checked : ∀ p ∈ unrelatedOperators, p.Checked := by decide
    have refused : (((mk .merge {}).transform unrelatedOperators).outcome w).1 =
        .error (.malformedProbe "pairs" .noSearch) := rfl
    obtain ⟨unspent, -⟩ := params_of_transform ⟨.merge, {}⟩ checked w
    exact ⟨refused, unspent fun q rewritten => nomatch refused.symm.trans rewritten⟩

end SemiJoinRule

end QueryPlan
