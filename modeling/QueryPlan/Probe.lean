import QueryPlan.Plan.Basic

/-!
# Index probes

A probe supplies the row ids of a scan. A lone probe is the merge of one index search. Several are an
intersection of merges, and then the intersection, its merges and their searches carry the same parameters.
-/
namespace QueryPlan.Plan

variable [ParamAllocator]

/-- Searches an index with the rows of `keys` and merges the row ids; the merge gets a limit of its own. -/
def indexProbe (keys : Plan) (source : IndexSource) (params : Option GroupParams) : Planner Plan := do
  let search ← build (.ixSearch source true false params) [keys]
  build (.ixMerge params (← Planner.freshParam)) [search]

/-- Is the plan a merge that carries the parameters of a group? -/
def carries (params : GroupParams) (p : Plan) : Bool :=
  match p.op with
  | .ixMerge (some q) _ => q = params
  | _ => false

/-- Adds a merge to an intersection, which keeps its parameters. -/
def extendIntersect (params : GroupParams) (merges : List Plan) (keys : Plan) (source : IndexSource) :
    Planner Plan := do
  if !merges.all (carries params) then
    throw (.malformedProbe source.table.name .notShared)
  Planner.report (.paramsReused params (merges.length + 1))
  let merge ← indexProbe keys source (some params)
  build (.ixIntersect params) (merges ++ [merge])

/-- Intersects a lone merge of `search` with a new one. The merge and its search are built again with the
parameters that the two now share, and the merge takes a new limit. -/
def extendMerge (params? : Option GroupParams) (search keys : Plan) (source : IndexSource) :
    Planner Plan := do
  match search with
  | .node _ (.ixSearch oldSource uniqueKey outer searchParams?) oldKeys =>
    if params?.isSome || searchParams?.isSome then
      throw (.malformedProbe source.table.name .sharedOutsideIntersect)
    let params ← Planner.freshGroup
    Planner.report (.paramsMinted params)
    let newMerge ← indexProbe keys source (some params)
    let oldSearch ← build (.ixSearch oldSource uniqueKey outer (some params)) oldKeys
    let oldMerge ← build (.ixMerge (some params) (← Planner.freshParam)) [oldSearch]
    build (.ixIntersect params) [oldMerge, newMerge]
  | _ => throw (.malformedProbe source.table.name .noSearch)

/-- The row id source of a scan that reads through `existing`, if there is one, and through a new probe. -/
def extendProbe (existing : Option Plan) (keys : Plan) (source : IndexSource) : Planner Plan :=
  match existing with
  | none => indexProbe keys source none
  | some (.node _ (.ixIntersect params) merges) => extendIntersect params merges keys source
  | some (.node _ (.ixMerge params? _) [search]) => extendMerge params? search keys source
  | some _ => throw (.malformedProbe source.table.name .notProbe)

end QueryPlan.Plan
