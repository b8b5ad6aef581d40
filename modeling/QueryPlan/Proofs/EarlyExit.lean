import QueryPlan.Proofs.ParallelSteps

/-!
# Exiting early

Whether a selection exits early shows in its reports only. So two rules that differ in this option alone
do the same with every plan where the same parameter is next: both fail with one error, both decline, or
both return plans that differ in the identities of their new nodes at most, and they take as many
parameters (`SemiJoinRule.earlyExit_indistinct`).
-/
namespace QueryPlan

open Planner Plan

/-- The same parameter is next in both workspaces. -/
def Planner.SameParam (w w' : Workspace) : Prop := w.nextParam = w'.nextParam

/-- There is either no plan in both places or a plan of the same shape. -/
def SameShape? (p? q? : Option Plan) : Prop := p?.map shape = q?.map shape

/-- Steps that do not look at identities do the same wherever the same parameter is next. -/
theorem Planner.Parallel.sameShape? {m m' : Planner (Option Plan)}
    (h : Parallel (Beside False 0) (Option.Rel (Counterpart False 0)) m m') :
    Parallel SameParam SameShape? m m' := by
  intro w w' same
  have agree := h w w' ⟨nofun, same.symm.trans (Id.advance_zero _).symm⟩
  generalize m.outcome w = x at agree ⊢
  generalize m'.outcome w' = y at agree ⊢
  cases agree with
  | returned value left =>
    refine .returned ?_ ((Id.advance_zero _).symm.trans left.2.symm)
    cases value with
    | none => rfl
    | some plans => exact congrArg some plans.shape_eq.symm
  | failed left => exact .failed ((Id.advance_zero _).symm.trans left.2.symm)

namespace SemiJoinRule

variable {shape : ScanShape} {intersect earlyExit earlyExit' : Bool}

theorem parallel_transform (bound : List Plan) :
    Parallel (Beside False 0) (Option.Rel (Counterpart False 0))
      ((mk shape ⟨earlyExit, intersect⟩).transform bound)
      ((mk shape ⟨earlyExit', intersect⟩).transform bound) := by
  have self (p? : Option Plan) : Option.Rel (Counterpart False 0) p? p? := by
    cases p? with
    | none => exact .none
    | some p => exact .some (counterpart_self _ p)
  have shapes : (mk shape ⟨earlyExit', intersect⟩).shape = (mk shape ⟨earlyExit, intersect⟩).shape := rfl
  have enabled : (mk shape ⟨earlyExit', intersect⟩).options.intersect =
      (mk shape ⟨earlyExit, intersect⟩).options.intersect := rfl
  unfold transform
  split
  · refine parallel_throughIndex shapes enabled _ _ _ ?_ (counterpart_self _ _) ?_
    · exact List.forall₂_same.2 fun x _ => counterpart_self _ x
    · exact (parallel_ofExcept _).imp fun p? q? same => same ▸ self p?
  · exact parallel_pure .none

theorem parallel_attempt (p : Plan) :
    Parallel SameParam SameShape? ((mk shape ⟨earlyExit, intersect⟩).toRule.attempt p)
      ((mk shape ⟨earlyExit', intersect⟩).toRule.attempt p) := by
  simp only [Rule.attempt, toRule]
  cases shape.pattern.bind? p with
  | none => exact parallel_pure rfl
  | some bound => exact (parallel_transform bound).sameShape?

/-- The choice of an index is the first longest match, if some index matches a join key, and it does not
depend on whether the search may exit early. Two rules that differ in this option only end alike on every
plan where the same parameter is next, and the same parameter is next afterwards. -/
theorem earlyExit_indistinct :
    (∀ (indexes : List Index) (joinCols : List ColumnId),
      (Selection.ofIndexes indexes joinCols true).choice =
        (Selection.ofIndexes indexes joinCols false).choice ∧
      ∀ earlyExit, ((Selection.ofIndexes indexes joinCols earlyExit).choice = none ↔
          ∀ index ∈ indexes, (KeyAssignment.ofKeys index.keys joinCols).length = 0) ∧
        ∀ c, (Selection.ofIndexes indexes joinCols earlyExit).choice = some c ↔
          Selection.FirstLongest joinCols indexes c) ∧
    ∀ (shape : ScanShape) (intersect : Bool) (p : Plan) (w w' : Workspace), w.nextParam = w'.nextParam →
      ((((mk shape ⟨true, intersect⟩).toRule.attempt p).outcome w).1.map (Option.map Plan.shape) =
        (((mk shape ⟨false, intersect⟩).toRule.attempt p).outcome w').1.map (Option.map Plan.shape)) ∧
      (((mk shape ⟨true, intersect⟩).toRule.attempt p).outcome w).2.nextParam =
        (((mk shape ⟨false, intersect⟩).toRule.attempt p).outcome w').2.nextParam := by
  refine ⟨fun indexes joinCols => ⟨?_, fun earlyExit => ⟨?_, fun c => ?_⟩⟩, ?_⟩
  · exact Selection.choice_earlyExit indexes joinCols true
  · rw [Selection.choice_eq_none_iff]
    simp only [List.length_eq_zero_iff, KeyAssignment.ofKeys_eq_nil_iff]
  · exact Selection.choice_eq_some_iff
  · intro shape intersect p w w' same
    exact (parallel_attempt p w w' same).map_eq

/-- Three indexes on pairs, of which the last two match both columns. -/
def pairsIndexes : List Index := [.onPairs 1 [1], .onPairs 2 [0, 1], .onPairs 3 [1, 0]]

/-- A search that may exit early stops at the second index and one that may not looks at the third as
well, and both choose the second. The rules that search so rewrite a semijoin alike. -/
theorem earlyExit_indistinct_pairs :
    (Selection.ofIndexes pairsIndexes (ColumnList.ofNats [0, 1]) true).examined.length = 2 ∧
    (Selection.ofIndexes pairsIndexes (ColumnList.ofNats [0, 1]) false).examined.length = 3 ∧
    (∀ earlyExit, (Selection.ofIndexes pairsIndexes (ColumnList.ofNats [0, 1]) earlyExit).choice =
      some ⟨.onPairs 2 [0, 1], [0, 1]⟩) ∧
    ∃ q, (((mk .scan ⟨true, true⟩).toRule.attempt
        (ScanSemiJoin.ofPairs pairsIndexes [0, 1]).plan).outcome { nextNode := 3 }).1 = .ok (some q) ∧
      (((mk .scan ⟨false, true⟩).toRule.attempt
        (ScanSemiJoin.ofPairs pairsIndexes [0, 1]).plan).outcome { nextNode := 9 }).1.map
          (Option.map Plan.shape) = .ok (some q.shape) := by
  obtain ⟨choices, rules⟩ := earlyExit_indistinct
  refine ⟨by decide, by decide, fun earlyExit => ?_, ?_⟩
  · obtain ⟨-, either⟩ := choices pairsIndexes (ColumnList.ofNats [0, 1])
    refine ((either earlyExit).2 _).2 ⟨[.onPairs 1 [1]], .onPairs 2 [0, 1], [.onPairs 3 [1, 0]], rfl, rfl, ?_⟩
    decide
  · have run : ((mk .scan ⟨true, true⟩).toRule.attempt (ScanSemiJoin.ofPairs pairsIndexes [0, 1]).plan).leadsTo
        { nextNode := 3 } (fun q? _ => q?.any fun _ => true) := by
      decide +kernel
    obtain ⟨q, v, returned, -⟩ := Planner.exists_some_of_leadsTo run
    have result := congrArg Prod.fst returned
    obtain ⟨same, -⟩ := rules .scan true _ { nextNode := 3 } { nextNode := 9 } rfl
    exact ⟨q, result, same.symm.trans (by rw [result]; rfl)⟩

end SemiJoinRule

end QueryPlan
