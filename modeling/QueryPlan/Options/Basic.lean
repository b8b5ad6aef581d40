/-!
# Options of the rules
-/
namespace QueryPlan

structure SemiJoinOptions where
  /-- Stop looking for an index at the first that matches every join key. This never changes the choice. -/
  earlyExit : Bool := true
  /-- Allow a further probe on a scan that already reads through one. -/
  intersect : Bool := true
deriving DecidableEq

structure RuleOptions where
  semiJoin : SemiJoinOptions := {}
deriving DecidableEq

end QueryPlan
