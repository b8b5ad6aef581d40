import QueryPlan.Ident

/-!
# Correlation parameters
-/
namespace QueryPlan

/-- The parameters that every probe of one intersection carries: where the next search starts and how many
rows it may return. -/
structure GroupParams where
  startRid : ParamId
  rowLimit : ParamId
deriving DecidableEq

def GroupParams.render (p : GroupParams) : String :=
  s!"SharedParams \x7b start_rid: ParamId({p.startRid}), row_limit: ParamId({p.rowLimit}) \x7d"

/-- Hands out a parameter for every request. Requests are numbered, modulo 2^32. A rule makes at most four of
them for one plan, and an allocator may answer these in any way. -/
class ParamAllocator where
  issue : ParamId → ParamId

namespace ParamAllocator

/-- The allocator that hands out the numbers themselves. -/
instance counter : ParamAllocator where
  issue n := n

end ParamAllocator

end QueryPlan
