import QueryPlan.Table
import QueryPlan.OperatorKind

/-!
# Plan errors

The ways in which building or changing a plan fails. None of them says that a rule does not apply: each one
says that the input breaks a contract and that there is no plan. An assertion that fails ends the program
without an answer and stands here beside the errors.
-/
namespace QueryPlan

/-- What is wrong with the row id source of a scan. -/
inductive ProbeFault
  | notFirstInput
  | notShared
  | noSearch
  | sharedOutsideIntersect
  | notProbe
deriving DecidableEq

def ProbeFault.reason : ProbeFault → String
  | notFirstInput => "matched probe is not the scan's row id source"
  | notShared => "intersect inputs must be merges sharing the intersect's parameters"
  | noSearch => "merge does not read an index search"
  | sharedOutsideIntersect => "a merge outside an intersect carries shared parameters"
  | notProbe => "row id source is not a merge or an intersect"

inductive PlanError
  | fieldOutOfRange (pos count : Nat)
  | missingColumn (cause : MissingColumn)
  | joinKeyArity (lhs rhs : Nat)
  | unknownIndex (index : IndexId) (table : String)
  | intersectArity (found : Nat)
  | inputArity (kind : OperatorKind) (expected found : Nat)
  | malformedProbe (table : String) (fault : ProbeFault)
  /-- No error that is reported, but the end of the program. -/
  | assertion (cause : PairingError)
deriving DecidableEq

namespace PlanError

def message : PlanError → String
  | fieldOutOfRange pos count => s!"Field {pos} is out of range for an input with {count} fields"
  | missingColumn cause => cause.message
  | joinKeyArity lhs rhs => s!"Semijoin has {lhs} left keys but {rhs} right keys"
  | unknownIndex index table => s!"Index {index} does not exist on `{table}`"
  | intersectArity found => s!"An index intersection needs at least two inputs, found {found}"
  | inputArity kind expected found => s!"{kind.name} takes {expected} inputs, found {found}"
  | malformedProbe table fault => s!"Malformed index probe under scan of `{table}`: {fault.reason}"
  | assertion cause => cause.message

/-- Reports a missing column as a plan error. -/
def liftColumn {α : Type} (r : Except MissingColumn α) : Except PlanError α :=
  r.mapError missingColumn

end PlanError

end QueryPlan
