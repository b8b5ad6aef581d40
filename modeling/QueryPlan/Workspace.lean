import QueryPlan.Error
import QueryPlan.Event

/-!
# The planner's workspace

Planning takes node ids from a workspace, numbers its requests for parameters there and leaves its reports
there. A step that fails keeps what it has taken and reported before.
-/
namespace QueryPlan

/-- The identity of a plan node. -/
abbrev NodeId := Nat

structure Workspace where
  nextNode : NodeId := 0
  /-- The number of the next request for a parameter. -/
  nextParam : ParamId := .ofNat 0
  /-- The reports so far, the latest first. -/
  log : List Event := []

namespace Workspace

/-- The reports so far in the order in which they were made. -/
def events (w : Workspace) : List Event := w.log.reverse

end Workspace

/-- A planning step. -/
abbrev Planner := ExceptT PlanError (StateM Workspace)

namespace Planner

def freshNode : Planner NodeId :=
  modifyGet fun w => (w.nextNode, { w with nextNode := w.nextNode + 1 })

def freshParam [ParamAllocator] : Planner ParamId :=
  modifyGet fun w => (ParamAllocator.issue w.nextParam, { w with nextParam := w.nextParam.next })

/-- Takes a pair of parameters, the start of the search first. -/
def freshGroup [ParamAllocator] : Planner GroupParams := do
  let startRid ← freshParam
  let rowLimit ← freshParam
  return ⟨startRid, rowLimit⟩

def report (e : Event) : Planner Unit := modify fun w => { w with log := e :: w.log }

def ofExcept {α : Type} (r : Except PlanError α) : Planner α := ExceptT.mk (pure r)

/-- Goes on with the value of a pairing, whose lists are asserted to have one length. -/
def assert {α : Type} (r : Except PairingError α) : Planner α := ofExcept (r.mapError .assertion)

theorem ofExcept_ok_bind {α β : Type} (a : α) (f : α → Planner β) : ofExcept (.ok a) >>= f = f a := rfl

theorem ofExcept_error_bind {α β : Type} (e : PlanError) (f : α → Planner β) :
    ofExcept (.error e) >>= f = ofExcept (.error e) := rfl

end Planner

end QueryPlan
