import QueryPlan.Proofs.Rewriting

/-!
# Chains of rewritings

A scan may be joined and rewritten again and again, each time by the first rule that returns a plan.
The first rewriting gives it a lone merge, the second makes this and a new merge a group, and every
further one adds a merge to the group. The merges stay in the order of the joins, and which parameter
goes where depends on the length of the chain only (`Chain.grouped`).
-/
namespace QueryPlan

open Plan

theorem getElem?_concat_eq_some {α : Type} {xs : List α} {x y : α} {n : Nat}
    (h : (xs ++ [x])[n]? = some y) : n < xs.length ∧ xs[n]? = some y ∨ n = xs.length ∧ x = y := by
  rcases Nat.lt_or_ge n xs.length with before | after
  · rw [List.getElem?_append_left before] at h
    exact .inl ⟨before, h⟩
  · have inside := (List.getElem?_eq_some_iff.1 h).1
    rw [List.length_append, List.length_singleton] at inside
    obtain rfl : n = xs.length := by omega
    rw [List.getElem?_concat_length, Option.some.injEq] at h
    exact .inr ⟨rfl, h⟩

namespace SemiJoinRule

/-- The plan of the first rule that returns one. -/
def first : List SemiJoinRule → Plan → Planner (Option Plan)
  | [], _ => return none
  | r :: rules, p => do
    match ← r.toRule.attempt p with
    | some q => return some q
    | none => first rules p

/-- The rules that return no plan take no parameter. -/
theorem attempted_of_first {rules : List SemiJoinRule} {p q : Plan} {w w' : Workspace}
    (h : (first rules p).Returns w (some q) w') :
    ∃ r ∈ rules, r.Attempted p w.nextParam (some q) w'.nextParam := by
  induction rules generalizing w with
  | nil => cases (Planner.returns_pure.1 h).1
  | cons r rules ih =>
    obtain ⟨q?, v, attempt, h⟩ := Planner.returns_bind.1 h
    have attempted := attempted_of_attempt attempt
    cases q? with
    | none =>
      obtain ⟨r', hr', later⟩ := ih h
      generalize v.nextParam = next at attempted later
      cases attempted
      exact ⟨r', List.mem_cons_of_mem _ hr', later⟩
    | some q' =>
      obtain ⟨eq, rfl⟩ := Planner.returns_pure.1 h
      cases eq
      exact ⟨r, List.mem_cons_self, attempted⟩

end SemiJoinRule

/-- A semijoin of the plan reached so far with the plan `rhs`, and the plan it is rewritten to. -/
structure Link where
  id : NodeId
  lhsKeys : ColumnList
  rhsKeys : ColumnList
  rhs : Plan
  result : Plan

/-- The semijoin of the plan `lhs`. -/
def Link.join (link : Link) (lhs : Plan) : Plan :=
  .node link.id (.semiJoin link.lhsKeys link.rhsKeys) [lhs, link.rhs]

/-- `Chain options t w links p v`: from the plan `t` in the workspace `w`, joining and rewriting as
`links` say leads to the plan `p` and the workspace `v`. Between the rewritings other planning may go
on that takes no parameters. -/
inductive Chain (options : SemiJoinOptions) (t : Plan) (w : Workspace) :
    List Link → Plan → Workspace → Prop
  | start : Chain options t w [] t w
  | link {links : List Link} {link : Link} {p : Plan} {v u u' : Workspace}
      (chain : Chain options t w links p v) (params : u.nextParam = v.nextParam)
      (rewritten : (SemiJoinRule.first (SemiJoinRule.all options) (link.join p)).Returns u
        (some link.result) u') :
      Chain options t w (links ++ [link]) link.result u'

/-- `link.Searches options s source p`: the plan `p` has the search keys for the semijoin of the scan
`s`, and `source` is the index chosen for it. -/
inductive Link.Searches (link : Link) (options : SemiJoinOptions) (s : TableScan) :
    IndexSource → Plan → Prop
  | intro {joinCols : List ColumnId} {c : Candidate} {keys : List SearchKey} {p : Plan}
      (columns : s.joinColumns link.lhsKeys = .ok joinCols)
      (choice : (Selection.ofIndexes s.table.unclustered joinCols options.earlyExit).choice = some c)
      (keyed : c.assignment.mapM
        (SearchKey.ofJoinKey link.lhsKeys link.rhsKeys s.rowType link.rhs.rowType) = .ok keys)
      (searched : SearchKey.KeyPlan keys link.rhs p) :
      Searches link options s ⟨s.table, c.index.id, s.connection⟩ p

/-- What the first rule that returns a plan makes of a scan that is joined. -/
theorem Link.exists_probe_of_first {options : SemiJoinOptions} {link : Link} {i : NodeId} {s : TableScan}
    {inputs : List Plan} {w w' : Workspace}
    (h : (SemiJoinRule.first (SemiJoinRule.all options) (link.join (.node i (.tableScan s) inputs))).Returns w
      (some link.result) w') :
    ∃ source keys probe j, link.Searches options s source keys ∧
      ExtendedProbe source keys (probe? inputs) probe ∧
      newParams (probe? inputs) probe = w.nextParam.consecutive (Plan.paramCost (probe? inputs)) ∧
      w'.nextParam = w.nextParam.advance (Plan.paramCost (probe? inputs)) ∧
      link.result = .node j (.tableScan s) (probe :: residual inputs) := by
  obtain ⟨r, hr, attempted⟩ := SemiJoinRule.attempted_of_first h
  have given : r.options = options := by
    simp only [SemiJoinRule.all, List.mem_cons, List.not_mem_nil, or_false] at hr
    rcases hr with rfl | rfl | rfl <;> rfl
  generalize link.result = q at attempted
  cases attempted with
  | @rewritten m c _ _ semijoin rewrites params taken =>
    obtain rfl : m = ⟨link.id, link.lhsKeys, link.rhsKeys, i, s, inputs, link.rhs⟩ :=
      ScanSemiJoin.plan_injective semijoin.symm
    cases rewrites with
    | @intro j keyPlan probe joinCols keys columns choice keyed searched probed accepted =>
      rw [given] at choice
      rw [ParamAllocator.issued_counter] at params
      exact ⟨_, keyPlan, probe, j, .intro columns choice keyed searched, probed, params, taken, rfl⟩

namespace Chain

/-- Which parameter after the first one is the limit of the merge at a place of the group. -/
def limitOffset : Nat → Nat
  | 0 => 4
  | 1 => 3
  | n + 2 => n + 5

/-- How many parameters the first rewritings of a chain take. -/
def paramCost : Nat → Nat
  | 0 => 0
  | 1 => 1
  | n + 2 => n + 5

theorem limitOffset_eq_paramCost {n : Nat} (h : 2 ≤ n) : limitOffset n = paramCost n := by
  obtain ⟨m, rfl⟩ := Nat.exists_eq_add_of_le' h
  rfl

theorem paramCost_succ {n : Nat} (h : 2 ≤ n) : paramCost (n + 1) = paramCost n + 1 := by
  obtain ⟨m, rfl⟩ := Nat.exists_eq_add_of_le' h
  rfl

/-- The parameters of the group. -/
def pair (first : ParamId) : GroupParams := ⟨first.advance 1, first.advance 2⟩

/-- What the plans of a chain read that starts with the scan `s` over `inputs` where `first` is the
next parameter. For each join there is an index and a plan of search keys in `searched`. -/
structure Grouped (options : SemiJoinOptions) (s : TableScan) (inputs : List Plan) (first : ParamId)
    (links : List Link) (searched : List (IndexSource × Plan)) (lone : Plan) (merges : List Plan) : Prop where
  keyed : List.Forall₂ (fun link x => link.Searches options s x.1 x.2) links searched
  /-- The first plan reads through a lone merge. -/
  single : ∀ link, links[0]? = some link →
    (∃ i, link.result = .node i (.tableScan s) (lone :: inputs)) ∧ lone.op.params = [first] ∧
      ∃ x, searched[0]? = some x ∧ SearchMerge none x.1 x.2 lone
  /-- The plans after it read through the first merges of the group, one more each time. -/
  group : ∀ n link, links[n + 1]? = some link →
    ∃ i j, link.result =
      .node i (.tableScan s) (.node j (.ixIntersect (pair first)) (merges.take (n + 2)) :: inputs)
  length : 2 ≤ links.length → merges.length = links.length
  /-- The merges search for the keys in the order of the joins. -/
  merge : ∀ n p, merges[n]? = some p → p.op.params = [first.advance (limitOffset n)] ∧
    ∃ x, searched[n]? = some x ∧ SearchMerge (some (pair first)) x.1 x.2 p

variable {options : SemiJoinOptions} {s : TableScan} {inputs : List Plan} {first : ParamId}

theorem grouped_start (lone : Plan) : Grouped options s inputs first [] [] lone [] where
  keyed := .nil
  single := nofun
  group := nofun
  length := nofun
  merge := nofun

variable {links : List Link} {link : Link} {source : IndexSource} {keys probe lone : Plan} {j : NodeId}
  {searched : List (IndexSource × Plan)} {merges : List Plan}

theorem grouped_first (searches : link.Searches options s source keys)
    (probed : ExtendedProbe source keys none probe) (params : newParams none probe = first.consecutive 1)
    (result : link.result = .node j (.tableScan s) (probe :: inputs)) :
    Grouped options s inputs first [link] [(source, keys)] probe [] where
  keyed := .cons searches .nil
  single := by
    rintro _ ⟨⟩
    cases probed with
    | first merge => exact ⟨⟨j, result⟩, by simpa [newParams, Id.consecutive] using params, _, rfl, merge⟩
  group := nofun
  length h := by simp at h
  merge := nofun

theorem Grouped.second {one : Link} (h : Grouped options s inputs first [one] searched lone merges)
    (searches : link.Searches options s source keys) (probed : ExtendedProbe source keys (some lone) probe)
    (params : newParams (some lone) probe = (first.advance 1).consecutive 4)
    (result : link.result = .node j (.tableScan s) (probe :: inputs)) :
    ∃ merges, Grouped options s inputs first ([one] ++ [link]) (searched ++ [(source, keys)]) lone merges := by
  obtain ⟨⟨i, oneResult⟩, limit, x, hx, merge⟩ := h.single one rfl
  obtain ⟨y, rest, keyed, none, rfl⟩ := List.forall₂_cons_left_iff.1 h.keyed
  obtain rfl := List.forall₂_nil_left_iff.1 none
  cases hx
  have oneMerge := merge
  cases probed with
  | grown => cases merge
  | @promoted k group _ _ _ again added old rebuilt probe =>
    cases merge
    cases old
    have four : (first.advance 1).consecutive 4 =
        [first.advance 1, first.advance 2, first.advance 3, first.advance 4] := by
      simp [Id.consecutive, List.range_succ]
    have taken : [group.startRid, group.rowLimit] ++ (added.op.params ++ (again.op.params ++ [])) =
        [first.advance 1, first.advance 2, first.advance 3, first.advance 4] := params.trans four
    obtain ⟨rfl, addedLimit, againLimit⟩ :
        group = pair first ∧ added.op.params = [first.advance 3] ∧ again.op.params = [first.advance 4] := by
      obtain ⟨startRid, rowLimit⟩ := group
      cases rebuilt
      cases probe
      simpa [pair, Operator.params, and_assoc] using taken
    refine ⟨[again, added], ?_⟩
    constructor
    case keyed => exact .cons keyed (.cons searches .nil)
    case single =>
      rintro _ ⟨⟩
      exact ⟨⟨i, oneResult⟩, limit, _, rfl, oneMerge⟩
    case group =>
      rintro (_ | n) p hp
      · cases hp
        exact ⟨j, k, result⟩
      · cases hp
    case length => exact fun _ => rfl
    case merge =>
      rintro (_ | _ | n) p hp
      · cases hp
        exact ⟨againLimit, _, rfl, rebuilt⟩
      · cases hp
        exact ⟨addedLimit, (source, keys), rfl, probe⟩
      · cases hp

theorem Grouped.next (h : Grouped options s inputs first links searched lone merges)
    (enough : 2 ≤ links.length) (searches : link.Searches options s source keys) {i : NodeId}
    (probed : ExtendedProbe source keys (some (.node i (.ixIntersect (pair first)) merges)) probe)
    (params : newParams (some (.node i (.ixIntersect (pair first)) merges)) probe =
      (first.advance (paramCost links.length)).consecutive 1)
    (result : link.result = .node j (.tableScan s) (probe :: inputs)) :
    ∃ added, Grouped options s inputs first (links ++ [link]) (searched ++ [(source, keys)]) lone
      (merges ++ [added]) := by
  have length := h.length enough
  have searchedLength := h.keyed.length_eq.symm
  cases probed with
  | promoted old => cases old
  | @grown _ k _ _ added inhabited shared probe =>
    refine ⟨added, ?_⟩
    constructor
    case keyed => exact List.rel_append h.keyed (.cons searches .nil)
    case single =>
      intro one hone
      rcases getElem?_concat_eq_some hone with ⟨-, before⟩ | ⟨empty, -⟩
      · obtain ⟨read, limit, x, hx, merge⟩ := h.single one before
        exact ⟨read, limit, x, by rw [List.getElem?_append_left (by omega), hx], merge⟩
      · omega
    case group =>
      intro n one hone
      rcases getElem?_concat_eq_some hone with ⟨inside, before⟩ | ⟨last, rfl⟩
      · obtain ⟨i', j', read⟩ := h.group n one before
        exact ⟨i', j', by rw [read, List.take_append_of_le_length (by omega)]⟩
      · exact ⟨j, k, by rw [result, List.take_of_length_le (by simp; omega)]⟩
    case length => simp [length]
    case merge =>
      intro n p hp
      rcases getElem?_concat_eq_some hp with ⟨inside, before⟩ | ⟨last, rfl⟩
      · obtain ⟨limit, x, hx, merge⟩ := h.merge n p before
        exact ⟨limit, x, by rw [List.getElem?_append_left (by omega), hx], merge⟩
      · have limit : added.op.params = (first.advance (paramCost links.length)).consecutive 1 := by
          simpa [newParams, Operator.kind] using params
        refine ⟨?_, (source, keys), ?_, probe⟩
        · rw [limit, last, length, limitOffset_eq_paramCost enough]
          simp [Id.consecutive]
        · rw [last, length, ← searchedLength, List.getElem?_concat_length]

/-- What the last plan of the chain reads. -/
theorem Grouped.exists_read {last : Link}
    (h : Grouped options s inputs first (links ++ [last]) searched lone merges) :
    ∃ i probe, last.result = .node i (.tableScan s) (probe :: inputs) ∧
      (links = [] ∧ probe = lone ∧ probe.kind = .ixMerge ∨
        links ≠ [] ∧ ∃ k, probe = .node k (.ixIntersect (pair first)) merges) := by
  rcases List.eq_nil_or_concat links with rfl | ⟨front, one, rfl⟩
  · obtain ⟨⟨i, read⟩, -, x, -, merge⟩ := h.single last rfl
    refine ⟨i, lone, read, .inl ⟨rfl, rfl, ?_⟩⟩
    cases merge
    rfl
  · have length := h.length (by simp)
    obtain ⟨i, k, read⟩ := h.group front.length last (by simp)
    rw [List.take_of_length_le (by simp [length])] at read
    exact ⟨i, _, read, .inr ⟨by simp, k, rfl⟩⟩

theorem exists_grouped {i : NodeId} {w v : Workspace} {p : Plan} (bare : probe? inputs = none)
    (chain : Chain options (.node i (.tableScan s) inputs) w links p v) :
    (∃ searched lone merges, Grouped options s inputs w.nextParam links searched lone merges) ∧
      v.nextParam = w.nextParam.advance (paramCost links.length) := by
  induction chain with
  | start => exact ⟨⟨[], _, [], grouped_start (.node i (.tableScan s) inputs)⟩, (Id.advance_zero _).symm⟩
  | @link links link p v u u' chain params rewritten ih =>
    obtain ⟨⟨searched, lone, merges, h⟩, next⟩ := ih
    rw [next] at params
    cases chain with
    | start =>
      obtain ⟨source, keys, probe, j, searches, probed, new, taken, result⟩ :=
        Link.exists_probe_of_first rewritten
      have plain : residual inputs = inputs := by simp [Plan.residual, bare]
      rw [bare] at probed
      rw [bare, params, List.length_nil, paramCost, Id.advance_zero] at new taken
      rw [plain] at result
      exact ⟨⟨_, _, _, grouped_first searches probed new result⟩, taken⟩
    | @link links last p v u u' chain _ _ =>
      obtain ⟨i, old, read, shape⟩ := h.exists_read
      rw [read] at rewritten
      obtain ⟨source, keys, probe, j, searches, probed, new, taken, result⟩ :=
        Link.exists_probe_of_first rewritten
      have isProbe : old.isProbe = true := by
        rcases shape with ⟨-, -, merge⟩ | ⟨-, k, rfl⟩
        · exact isProbe_iff.2 (.inl merge)
        · rfl
      have there : probe? (old :: inputs) = some old := probe?_eq_some_iff.2 ⟨rfl, isProbe⟩
      have others : residual (old :: inputs) = inputs := by simp [Plan.residual, there]
      rw [there] at probed
      rw [there, params] at new taken
      rw [others] at result
      rcases shape with ⟨rfl, rfl, merge⟩ | ⟨more, k, rfl⟩
      · have four : Plan.paramCost (some old) = 4 := by simp [Plan.paramCost, merge]
        rw [four] at new taken
        obtain ⟨merges, h⟩ := h.second searches probed new result
        exact ⟨⟨_, _, merges, h⟩, by rw [taken, Id.advance_advance]; rfl⟩
      · have enough : 2 ≤ (links ++ [last]).length := by
          have := List.length_pos_iff.2 more
          rw [List.length_append, List.length_singleton]
          omega
        obtain ⟨added, h⟩ := h.next enough searches probed new result
        have length : (links ++ [last] ++ [link]).length = (links ++ [last]).length + 1 := by simp
        refine ⟨⟨_, _, _, h⟩, ?_⟩
        rw [taken, Id.advance_advance, length, paramCost_succ enough]
        rfl

/-- In a chain that starts with a scan without a row id source, every plan is that scan over one row id
source and the inputs of the scan: a lone merge at first, and then an intersection of one merge for each
join, all under one pair of parameters. -/
theorem grouped {i : NodeId} {w v : Workspace} {p : Plan} (bare : probe? inputs = none)
    (chain : Chain options (.node i (.tableScan s) inputs) w links p v) :
    (∃ searched lone merges, Grouped options s inputs w.nextParam links searched lone merges) ∧
      (∀ last ∈ links.getLast?, last.result = p) ∧ v.nextParam = w.nextParam.advance (paramCost links.length) := by
  obtain ⟨h, next⟩ := exists_grouped bare chain
  refine ⟨h, ?_, next⟩
  cases chain with
  | start => nofun
  | link => simp

end Chain

/-- The scan of pairs that is joined. -/
def Plan.indexedPairs : Plan := .node 0 (.tableScan (.ofPairs 0 [.onPairs 1 [0]])) []

/-- A semijoin with other pairs on the first column. -/
def Link.ofPairs (result : Plan) : Link :=
  ⟨2, .ofNats [0], .ofNats [0], .node 1 (.tableScan (.ofPairs 1 [])) [], result⟩

/-- Joins a plan with other pairs and rewrites it. -/
def Plan.rejoin (p : Plan) : Planner (Option Plan) :=
  SemiJoinRule.first (SemiJoinRule.all {}) ((Link.ofPairs p).join p)

theorem Chain.exists_indexedPairs :
    ∃ p q r v, Chain {} .indexedPairs { nextNode := 3 } [.ofPairs p, .ofPairs q, .ofPairs r] r v := by
  have run : Plan.indexedPairs.rejoin.leadsTo { nextNode := 3 } fun p? u => p?.any fun p =>
      p.rejoin.leadsTo u fun q? u' => q?.any fun q => q.rejoin.leadsTo u' fun r? _ => r?.any fun _ => true := by
    decide +kernel
  obtain ⟨p, u, first, run⟩ := Planner.exists_some_of_leadsTo run
  obtain ⟨q, u', second, run⟩ := Planner.exists_some_of_leadsTo run
  obtain ⟨r, v, third, -⟩ := Planner.exists_some_of_leadsTo run
  have one : Chain {} .indexedPairs { nextNode := 3 } ([] ++ [.ofPairs p]) p u := .link .start rfl first
  have two : Chain {} .indexedPairs { nextNode := 3 } ([] ++ [.ofPairs p] ++ [.ofPairs q]) q u' :=
    .link one rfl second
  exact ⟨p, q, r, v, .link two rfl third⟩

/-- Three joins with pairs take six parameters and end in a group of three merges. -/
theorem Chain.grouped_indexedPairs :
    ∃ p q r v, Chain {} .indexedPairs { nextNode := 3 } [.ofPairs p, .ofPairs q, .ofPairs r] r v ∧
      v.nextParam = .ofNat 6 ∧ ∃ i j merges,
        r = .node i (.tableScan (.ofPairs 0 [.onPairs 1 [0]]))
          [.node j (.ixIntersect ⟨.ofNat 1, .ofNat 2⟩) merges] ∧ merges.length = 3 := by
  obtain ⟨p, q, r, v, chain⟩ := exists_indexedPairs
  obtain ⟨⟨searched, lone, merges, h⟩, -, next⟩ := grouped rfl chain
  have length : merges.length = 3 := h.length (by simp)
  obtain ⟨i, j, read⟩ := h.group 1 (.ofPairs r) rfl
  rw [List.take_of_length_le (by omega)] at read
  exact ⟨p, q, r, v, chain, next, i, j, merges, read, length⟩

end QueryPlan
