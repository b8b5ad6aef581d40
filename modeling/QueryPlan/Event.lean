import QueryPlan.KeyAssignment
import QueryPlan.OperatorKind
import QueryPlan.Param
import QueryPlan.SqlType

/-!
# Events

What the planner reports while it works, with the level and the text of the report.
-/
namespace QueryPlan

inductive Level | trace | debug
deriving DecidableEq

def Level.name : Level → String
  | trace => "TRACE"
  | debug => "DEBUG"

inductive Event
  | ruleMatched (rule : String) (kind : OperatorKind) (size : Nat)
  | indexExamined (index : String) (keys : ColumnList) (matched joinKeys : Nat)
  | scanDeferred (rule table : String)
  | intersectDisabled (rule : String)
  | noIndex (rule table : String)
  | indexChosen (rule table index : String) (joinKeys : Nat) (assignment : KeyAssignment)
  | keysCast (source target : List SqlType)
  | paramsReused (params : GroupParams) (probe : Nat)
  | paramsMinted (params : GroupParams)
deriving DecidableEq

namespace Event

def level : Event → Level
  | ruleMatched .. | indexExamined .. => .trace
  | scanDeferred .. | intersectDisabled .. | noIndex .. | indexChosen .. | keysCast .. | paramsReused ..
  | paramsMinted .. => .debug

def text : Event → String
  | ruleMatched rule kind size => s!"{rule} matches a {kind.name} with {size} operators"
  | indexExamined index keys matched joinKeys =>
    s!"Index `{index}` on {keys.render} matches {matched} of {joinKeys} join keys"
  | scanDeferred rule table => s!"{rule}: deferring scan of `{table}` to a longer pattern"
  | intersectDisabled rule => s!"{rule}: intersecting index probes is disabled"
  | noIndex rule table => s!"{rule}: no index on `{table}` matches the join keys"
  | indexChosen rule table index joinKeys assignment =>
    s!"{rule}: probing `{table}` through index `{index}` with {assignment.length} of {joinKeys} " ++
      s!"join keys, permuted as {assignment.render}"
  | keysCast source target =>
    s!"Casting search keys {SqlType.renderAll source} to {SqlType.renderAll target}"
  | paramsReused params probe => s!"Reusing parameters {params.render} for probe {probe} of an intersect"
  | paramsMinted params => s!"Minted parameters {params.render} to intersect two probes"

/-- The report as one line: its level, a blank and its text. -/
def line (e : Event) : String := e.level.name ++ " " ++ e.text

end Event

end QueryPlan
