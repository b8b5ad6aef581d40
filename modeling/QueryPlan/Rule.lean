import QueryPlan.Plan.Replace

/-!
# Rules

A rule offers a replacement for a plan it matches and leaves the plan itself as it is. A set of rules collects
such offers for every operator of a plan; which of them to take is up to the caller.
-/
namespace QueryPlan

structure Rule where
  name : String
  /-- The operators bound by a match, the root of the plan first. -/
  match? : Plan → Option (List Plan)
  /-- The plan offered for the operators of a match; none if the rule does not apply. -/
  transform : List Plan → Planner (Option Plan)

/-- Matches and transforms in one step. -/
def Rule.attempt (rule : Rule) (p : Plan) : Planner (Option Plan) :=
  match rule.match? p with
  | some bound => rule.transform bound
  | none => return none

/-- A plan offered by a rule for an operator of a larger plan. -/
structure Alternative where
  rule : String
  matched : Plan
  replacement : Plan

/-- The whole plan `root` with the matched operator replaced. -/
def Alternative.apply (a : Alternative) (root : Plan) : Planner Plan :=
  Plan.replace a.matched a.replacement root

/-- The rules in the order in which they are offered an operator. -/
abbrev RuleSet := List Rule

namespace RuleSet

/-- Offers one operator to one rule. -/
def offer (rule : Rule) (p : Plan) : Planner (List Alternative) := do
  match rule.match? p with
  | none => return []
  | some bound =>
    Planner.report (.ruleMatched rule.name p.kind bound.length)
    match ← rule.transform bound with
    | none => return []
    | some replacement => return [⟨rule.name, p, replacement⟩]

/-- Offers every operator of a plan, in pre-order, to every rule. The first rule that fails ends it. -/
def alternatives (rules : RuleSet) (root : Plan) : Planner (List Alternative) := do
  let offers ← root.preorder.mapM fun p => rules.mapM fun rule => offer rule p
  return offers.flatten.flatten

end RuleSet

end QueryPlan
