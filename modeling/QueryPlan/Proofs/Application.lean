import QueryPlan.Proofs.Registrations
import QueryPlan.Proofs.Runs

/-!
# Applying alternatives

A replacement of the same row type is never refused, whatever stands above it, and it keeps the row type
of the whole plan (`Workspace.Holds.keepsRowType_replace`). A semijoin rule offers only such replacements
(`SemiJoinRule.rowType_eq_of_attempt`), also for scans with a row id source that no rule has made, so
alternatives can always be applied.
-/
namespace QueryPlan

/-- In every workspace the step returns, and what it returns has the row type of `p`. -/
def Planner.KeepsRowType (m : Planner Plan) (p : Plan) : Prop :=
  ∀ w, ∃ q w', m.Returns w q w' ∧ q.rowType = p.rowType

namespace Plan

variable {w : Workspace} {built : List Plan} {root target replacement : Plan}

/-- In a built tree only the node itself gives way to its replacement. -/
theorem Fits.of_holds (holds : w.Holds built) (hroot : root ∈ built) (htarget : target ∈ built)
    (rows : target.rowType = replacement.rowType) : Fits target replacement root := by
  intro z hz same
  rw [holds.alone hroot htarget z hz same, rows]

end Plan

namespace SemiJoinRule

/-- A scan that reads through an index more has the fields of the scan it replaces, and these are the
fields of the semijoin. -/
theorem rowType_eq_of_attempt [ParamAllocator] {r : SemiJoinRule} {p q : Plan}
    (h : (r.toRule.attempt p).Yields (some q)) :
    q.rowType = p.rowType := by
  obtain ⟨m, c, rfl, rewrites⟩ := rewrites_of_attempt h
  rw [rewrites.rowType_eq, m.rowType_plan]

end SemiJoinRule

namespace Workspace.Holds

variable {w : Workspace} {built : List Plan}

/-- A replacement of the same row type is accepted in every built tree. -/
theorem keepsRowType_replace (holds : w.Holds built) {root target replacement : Plan} (hroot : root ∈ built)
    (htarget : target ∈ built) (rows : target.rowType = replacement.rowType) :
    (Plan.replace target replacement root).KeepsRowType root := by
  have fits := Plan.Fits.of_holds holds hroot htarget rows
  intro v
  obtain ⟨q, v', returned⟩ := Plan.succeeds_replace (holds.checked hroot) fits v
  exact ⟨q, v', returned, (Plan.yields_replace returned.yields).rowType_eq fits⟩

/-- What a rule has offered for one built node may be applied to any built plan. -/
theorem keepsRowType_apply [ParamAllocator] (holds : w.Holds built) {r : SemiJoinRule} {a : Alternative} {p : Plan}
    (hp : p ∈ built) (hm : a.matched ∈ built)
    (attempted : (r.toRule.attempt a.matched).Yields (some a.replacement)) :
    (a.apply p).KeepsRowType p :=
  holds.keepsRowType_replace hp hm (SemiJoinRule.rowType_eq_of_attempt attempted).symm

end Workspace.Holds

/-- A replacement of the same row type succeeds and keeps the row type of the root. A rule keeps the row
type of the plan it is tried on, so whatever it offers for a node, alone or among the alternatives for a
plan, can be applied to every plan and keeps its row type. -/
theorem application_keeps_rowType [ParamAllocator] {w : Workspace} {built : List Plan} (holds : w.Holds built) :
    (∀ root ∈ built, ∀ target ∈ built, ∀ replacement, target.rowType = replacement.rowType →
      (Plan.replace target replacement root).KeepsRowType root) ∧
    (∀ (r : SemiJoinRule) (p q : Plan), (r.toRule.attempt p).Yields (some q) → q.rowType = p.rowType) ∧
    (∀ (r : SemiJoinRule) (a : Alternative), a.matched ∈ built →
      (r.toRule.attempt a.matched).Yields (some a.replacement) →
      ∀ p ∈ built, (a.apply p).KeepsRowType p) ∧
    ∀ (rules : List SemiJoinRule), ∀ root ∈ built, ∀ alts,
      (RuleSet.alternatives (rules.map SemiJoinRule.toRule) root).Yields alts →
      ∀ a ∈ alts, ∀ p ∈ built, (a.apply p).KeepsRowType p := by
  refine ⟨?_, ?_, ?_, ?_⟩
  · intro root hroot target htarget replacement rows
    exact holds.keepsRowType_replace hroot htarget rows
  · intro r p q attempted
    exact SemiJoinRule.rowType_eq_of_attempt attempted
  · intro r a hm attempted p hp
    exact holds.keepsRowType_apply hp hm attempted
  · intro rules root hroot alts fired a mem p hp
    obtain ⟨found, rule, hrule, attempted⟩ := RuleSet.attempt_of_mem_alternatives fired mem
    obtain ⟨r, -, rfl⟩ := List.mem_map.1 hrule
    exact holds.keepsRowType_apply hp (holds.preorder_subset hroot found) attempted

/-- The semijoin reads through a row id source that no rule has made. It stands below a sort. -/
def Plan.sortedProbed : Plan :=
  .node 6 (.sort (.ofNats [0]) false) [(ScanSemiJoin.overInputs [pairsProbe]).plan]

theorem application_keeps_rowType_sortedProbed :
    (∃ alts u, (RuleSet.alternatives ((SemiJoinRule.all {}).map SemiJoinRule.toRule) Plan.sortedProbed).Returns
        { nextNode := 7 } alts u ∧ alts.length = 1 ∧
      ∀ a ∈ alts, ∀ p ∈ Plan.sortedProbed.preorder, (a.apply p).KeepsRowType p) ∧
    (Plan.replace (ScanSemiJoin.overInputs [Plan.pairsProbe]).rhs Plan.morePairs Plan.sortedProbed).KeepsRowType
      Plan.sortedProbed := by
  have holds : ({ nextNode := 7 } : Workspace).Holds Plan.sortedProbed.preorder := by
    apply Workspace.Holds.preorder
    · decide
    · decide
    · decide
  obtain ⟨replaced, -, -, applied⟩ := application_keeps_rowType holds
  constructor
  · have run : (RuleSet.alternatives ((SemiJoinRule.all {}).map SemiJoinRule.toRule) Plan.sortedProbed).leadsTo
        { nextNode := 7 } (fun alts _ => decide (alts.length = 1)) := by
      decide +kernel
    obtain ⟨alts, u, fired, one⟩ := Planner.exists_of_leadsTo run
    exact ⟨alts, u, fired, of_decide_eq_true one, applied _ _ (Plan.self_mem_preorder _) _ fired.yields⟩
  · refine replaced _ (Plan.self_mem_preorder _) _ ?_ _ rfl
    simp [Plan.sortedProbed, ScanSemiJoin.plan]

end QueryPlan
