/-!
# Kinds of operators
-/
namespace QueryPlan

/-- An operator without its payload. -/
inductive OperatorKind
  | semiJoin | tableScan | ixSearch | ixMerge | ixIntersect | project | sort | filter
deriving DecidableEq

namespace OperatorKind

def name : OperatorKind → String
  | semiJoin => "SemiJoin"
  | tableScan => "TableScan"
  | ixSearch => "IxSearch"
  | ixMerge => "IxMerge"
  | ixIntersect => "IxIntersect"
  | project => "Project"
  | sort => "Sort"
  | filter => "Filter"

def all : List OperatorKind :=
  [semiJoin, tableScan, ixSearch, ixMerge, ixIntersect, project, sort, filter]

def ofName? (text : String) : Option OperatorKind := all.find? (·.name == text)

/-- The number of inputs an operator takes; a scan and an intersection take any number. -/
def arity? : OperatorKind → Option Nat
  | semiJoin => some 2
  | tableScan | ixIntersect => none
  | ixSearch | ixMerge | project | sort | filter => some 1

end OperatorKind

end QueryPlan
