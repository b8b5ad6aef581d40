import QueryPlan.Probe
import QueryPlan.Proofs.Checks
import QueryPlan.Proofs.Parameters

/-!
# Probes that are added to a scan

A lone probe is a merge over an index search. Adding a probe to an intersection appends a merge that
carries its parameters; adding one to a lone merge builds that merge and its search again under the
parameters that the two merges then share. The parameters that this takes are counted, and where they
go is known (`Plan.newParams`).
-/
namespace QueryPlan.Plan

/-- A merge that reads a search of `source` for the rows of `keys`, both with the parameters
`params`. -/
inductive SearchMerge (params : Option GroupParams) (source : IndexSource) (keys : Plan) : Plan → Prop
  | intro {i j : NodeId} {limit : ParamId} {unique outer : Bool} :
      SearchMerge params source keys
        (node i (.ixMerge params limit) [node j (.ixSearch source unique outer params) [keys]])

/-- `ExtendedProbe source keys existing p`: the row id source `p` results from adding a search of
`source` for the rows of `keys` to the row id source there was. -/
inductive ExtendedProbe (source : IndexSource) (keys : Plan) : Option Plan → Plan → Prop
  | first {p : Plan} (probe : SearchMerge none source keys p) : ExtendedProbe source keys none p
  | grown {i j : NodeId} {params : GroupParams} {merges : List Plan} {added : Plan}
      (inhabited : merges ≠ [])
      (shared : ∀ x ∈ merges, x.carries params) (probe : SearchMerge (some params) source keys added) :
      ExtendedProbe source keys (some (node i (.ixIntersect params) merges))
        (node j (.ixIntersect params) (merges ++ [added]))
  | promoted {j : NodeId} {params : GroupParams} {oldSource : IndexSource} {oldKeys lone again added : Plan}
      (old : SearchMerge none oldSource oldKeys lone)
      (rebuilt : SearchMerge (some params) oldSource oldKeys again)
      (probe : SearchMerge (some params) source keys added) :
      ExtendedProbe source keys (some lone) (node j (.ixIntersect params) [again, added])

/-- How many parameters are taken to add a search to a row id source, or to have one where there is
none. -/
def paramCost : Option Plan → Nat
  | some p => if p.kind = .ixMerge then 4 else 1
  | none => 1

/-- The parameters that the row id source `p` has over the one it extends, in the order in which they
are taken: a new group comes before the limits of the merges, and the last merge before the first. -/
def newParams (existing : Option Plan) (p : Plan) : List ParamId :=
  match existing.map kind with
  | none => p.op.params
  | some .ixMerge => p.op.params ++ p.inputs.reverse.flatMap (·.op.params)
  | some _ => p.inputs.getLast?.toList.flatMap (·.op.params)

variable {source : IndexSource} {keys : Plan}

theorem check_ixSearch {row : RowType} {unique outer : Bool} {params : Option GroupParams} :
    (Operator.ixSearch source unique outer params).check [row] = .ok () ↔
      ∃ index, source.table.index source.index = .ok index := by
  change (discard (source.table.index source.index) : Except PlanError Unit) = .ok () ↔ _
  cases source.table.index source.index <;> simp [discard, Functor.mapConst, Except.map]

theorem returns_indexProbe [ParamAllocator] {params : Option GroupParams} {w w' : Workspace} {p : Plan}
    (h : (indexProbe keys source params).Returns w p w') :
    SearchMerge params source keys p ∧ p.op.params = [ParamAllocator.issue w.nextParam] ∧
      w'.nextParam = w.nextParam.next := by
  obtain ⟨search, v, hsearch, h⟩ := Planner.returns_bind.1 h
  obtain ⟨limit, v', hlimit, h⟩ := Planner.returns_bind.1 h
  obtain ⟨-, rfl, rfl⟩ := returns_build.1 hsearch
  obtain ⟨rfl, rfl⟩ := Planner.returns_freshParam.1 hlimit
  obtain ⟨-, rfl, rfl⟩ := returns_build.1 h
  exact ⟨.intro, rfl, rfl⟩

theorem succeeds_indexProbe [ParamAllocator] {params : Option GroupParams} {index : Index}
    (known : source.table.index source.index = .ok index) : (indexProbe keys source params).Succeeds := by
  apply (succeeds_build (check_ixSearch.2 ⟨index, known⟩)).bind
  intro search _
  apply Planner.succeeds_freshParam.bind
  intro limit _
  exact succeeds_build rfl

theorem returns_extendIntersect [ParamAllocator] {i : NodeId} {params : GroupParams} {merges : List Plan}
    {w w' : Workspace} {p : Plan} (h : (extendIntersect params merges keys source).Returns w p w') :
    ExtendedProbe source keys (some (node i (.ixIntersect params) merges)) p ∧
      newParams (some (node i (.ixIntersect params) merges)) p = [ParamAllocator.issue w.nextParam] ∧
      w'.nextParam = w.nextParam.next := by
  unfold extendIntersect at h
  split at h
  · obtain ⟨-, -, h, -⟩ := Planner.returns_bind.1 h
    exact absurd h Planner.not_returns_throw
  · next shared =>
    obtain ⟨_, v, reported, h⟩ := Planner.returns_bind.1 h
    obtain rfl := Planner.returns_report.1 reported
    obtain ⟨added, v', hadded, h⟩ := Planner.returns_bind.1 h
    obtain ⟨probe, limit, next⟩ := returns_indexProbe hadded
    obtain ⟨check, rfl, rfl⟩ := returns_build.1 h
    refine ⟨.grown ?_ (by simpa using shared) probe, ?_, next⟩
    · rintro rfl
      cases check
    · simpa [newParams, kind, Plan.op, Operator.kind, Plan.inputs] using limit

theorem succeeds_extendIntersect [ParamAllocator] {params : GroupParams} {merges : List Plan} {index : Index}
    (known : source.table.index source.index = .ok index) (inhabited : merges ≠ [])
    (shared : ∀ x ∈ merges, x.carries params) : (extendIntersect params merges keys source).Succeeds := by
  unfold extendIntersect
  rw [if_neg (by simpa using shared)]
  apply (Planner.succeeds_report _).bind
  intro _ _
  apply (succeeds_indexProbe known).bind
  intro added _
  apply succeeds_build
  have enough : ¬((merges ++ [added]).map rowType).length < 2 := by
    have := List.length_pos_iff.2 inhabited
    simp only [List.length_map, List.length_append, List.length_singleton]
    omega
  simp only [Operator.check, if_neg enough]
  rfl

theorem returns_extendMerge [ParamAllocator] {i : NodeId} {params? : Option GroupParams} {limit : ParamId}
    {search p : Plan} {w w' : Workspace} (h : (extendMerge params? search keys source).Returns w p w') :
    ExtendedProbe source keys (some (node i (.ixMerge params? limit) [search])) p ∧
      newParams (some (node i (.ixMerge params? limit) [search])) p = ParamAllocator.issued w.nextParam 4 ∧
      w'.nextParam = w.nextParam.advance 4 := by
  unfold extendMerge at h
  split at h
  · next j oldSource unique outer searchParams? oldKeys =>
    split at h
    · obtain ⟨-, -, h, -⟩ := Planner.returns_bind.1 h
      exact absurd h Planner.not_returns_throw
    · next unshared =>
      obtain ⟨rfl, rfl⟩ : params? = none ∧ searchParams? = none := by simpa using unshared
      obtain ⟨params, v₁, minted, h⟩ := Planner.returns_bind.1 h
      obtain ⟨rfl, rfl⟩ := Planner.returns_freshGroup.1 minted
      obtain ⟨_, v₂, reported, h⟩ := Planner.returns_bind.1 h
      obtain rfl := Planner.returns_report.1 reported
      obtain ⟨added, v₃, hadded, h⟩ := Planner.returns_bind.1 h
      obtain ⟨probe, addedLimit, next⟩ := returns_indexProbe hadded
      obtain ⟨oldSearch, v₄, hsearch, h⟩ := Planner.returns_bind.1 h
      obtain ⟨check, rfl, rfl⟩ := returns_build.1 hsearch
      obtain ⟨newLimit, v₅, hlimit, h⟩ := Planner.returns_bind.1 h
      obtain ⟨rfl, rfl⟩ := Planner.returns_freshParam.1 hlimit
      obtain ⟨again, v₆, hagain, h⟩ := Planner.returns_bind.1 h
      obtain ⟨-, rfl, rfl⟩ := returns_build.1 hagain
      obtain ⟨-, rfl, rfl⟩ := returns_build.1 h
      have one := Operator.length_eq_of_check check rfl
      rw [List.length_map] at one
      obtain ⟨oldKey, rfl⟩ := List.length_eq_one_iff.1 one
      refine ⟨.promoted .intro .intro probe, ?_, ?_⟩
      · change [_, _] ++ (added.op.params ++ [_]) = _
        rw [addedLimit, next]
        simp [ParamAllocator.issued, Id.consecutive, List.range_succ, Id.next_eq_advance]
      · simp only [next, Id.next_eq_advance, Id.advance_advance]
  · exact absurd h Planner.not_returns_throw

theorem succeeds_extendMerge [ParamAllocator] (j : NodeId) {oldSource : IndexSource} {unique outer : Bool}
    {oldKeys : Plan} {index oldIndex : Index} (known : source.table.index source.index = .ok index)
    (oldKnown : oldSource.table.index oldSource.index = .ok oldIndex) :
    (extendMerge none (node j (.ixSearch oldSource unique outer none) [oldKeys]) keys source).Succeeds := by
  apply Planner.succeeds_freshGroup.bind
  intro params _
  apply (Planner.succeeds_report _).bind
  intro _ _
  apply (succeeds_indexProbe known).bind
  intro added _
  apply (succeeds_build (check_ixSearch.2 ⟨oldIndex, oldKnown⟩)).bind
  intro oldSearch _
  apply Planner.succeeds_freshParam.bind
  intro limit _
  refine (succeeds_build ?_).bind fun again _ => succeeds_build ?_
  · rfl
  · rfl

/-- The search is added, and its parameters are those handed out next. -/
theorem returns_extendProbe [ParamAllocator] {existing : Option Plan} {w w' : Workspace} {p : Plan}
    (h : (extendProbe existing keys source).Returns w p w') :
    ExtendedProbe source keys existing p ∧
      newParams existing p = ParamAllocator.issued w.nextParam (paramCost existing) ∧
      w'.nextParam = w.nextParam.advance (paramCost existing) := by
  unfold extendProbe at h
  split at h
  · obtain ⟨probe, limit, next⟩ := returns_indexProbe h
    exact ⟨.first probe, by simpa [newParams, paramCost, ParamAllocator.issued, Id.consecutive] using limit, next⟩
  · obtain ⟨extended, params, next⟩ := returns_extendIntersect h
    refine ⟨extended, ?_, next⟩
    simpa [paramCost, kind, Plan.op, Operator.kind, ParamAllocator.issued, Id.consecutive] using params
  · exact returns_extendMerge h
  · exact absurd h Planner.not_returns_throw

/-- The row id sources to which a search can be added. -/
inductive Extendable : Option Plan → Prop
  | none : Extendable none
  | intersect {i : NodeId} {params : GroupParams} {merges : List Plan} (inhabited : merges ≠ [])
      (shared : ∀ x ∈ merges, x.carries params) : Extendable (some (node i (.ixIntersect params) merges))
  | merge {source : IndexSource} {keys lone : Plan} {index : Index}
      (probe : SearchMerge Option.none source keys lone)
      (known : source.table.index source.index = .ok index) : Extendable (some lone)

theorem succeeds_extendProbe [ParamAllocator] {existing : Option Plan} {index : Index}
    (known : source.table.index source.index = .ok index) (extendable : Extendable existing) :
    (extendProbe existing keys source).Succeeds := by
  cases extendable with
  | none => exact succeeds_indexProbe known
  | intersect inhabited shared => exact succeeds_extendIntersect known inhabited shared
  | merge probe oldKnown =>
    cases probe with
    | @intro i j => exact succeeds_extendMerge j known oldKnown

/-- The row id sources to which no search can be added, with what is wrong about them: a member of an
intersection is not a merge with the parameters of the intersection, or a lone merge has parameters, or
its search has. -/
inductive Flawed : Option Plan → ProbeFault → Prop
  | notShared {i : NodeId} {params : GroupParams} {merges : List Plan} {x : Plan} (mem : x ∈ merges)
      (other : ∀ limit, x.op ≠ .ixMerge (some params) limit) :
      Flawed (some (node i (.ixIntersect params) merges)) .notShared
  | sharedOutsideIntersect {i j : NodeId} {source : IndexSource} {unique outer : Bool} {limit : ParamId}
      {params? searchParams? : Option GroupParams} {oldKeys : List Plan}
      (shared : params?.isSome = true ∨ searchParams?.isSome = true) :
      Flawed (some (node i (.ixMerge params? limit)
        [node j (.ixSearch source unique outer searchParams?) oldKeys])) .sharedOutsideIntersect

theorem carries_iff {params : GroupParams} {p : Plan} :
    p.carries params = true ↔ ∃ limit, p.op = .ixMerge (some params) limit := by
  unfold carries
  split
  · next q limit op => simp [op]
  · next other =>
    refine iff_of_false Bool.false_ne_true fun ⟨limit, op⟩ => ?_
    exact other params limit op

theorem Extendable.not_flawed {existing : Option Plan} (h : Extendable existing) {fault : ProbeFault} :
    ¬Flawed existing fault := by
  intro flawed
  cases h with
  | none => cases flawed
  | intersect inhabited shared =>
    cases flawed with
    | notShared mem other =>
      obtain ⟨limit, op⟩ := carries_iff.1 (shared _ mem)
      exact other limit op
  | merge probe known =>
    cases probe
    cases flawed with
    | sharedOutsideIntersect shared => simp at shared

theorem Extendable.reads_search {existing : Option Plan} (h : Extendable existing) {x : Plan}
    (some : existing = .some x) (merge : x.kind = .ixMerge) :
    ∃ y ∈ x.inputs.head?, y.kind = .ixSearch := by
  cases h with
  | none => cases some
  | intersect =>
    cases some
    cases merge
  | merge probe =>
    cases some
    cases probe
    exact ⟨_, rfl, rfl⟩

theorem Flawed.fault_unique {existing : Option Plan} {fault fault' : ProbeFault}
    (h : Flawed existing fault) (h' : Flawed existing fault') : fault = fault' := by
  cases h <;> cases h' <;> rfl

theorem extendable_or_flawed_of_ixIntersect {p : Plan} (accepted : p.Accepted)
    (kind : p.kind = .ixIntersect) : Extendable (some p) ∨ ∃ fault, Flawed (some p) fault := by
  obtain ⟨i, op, merges⟩ := p
  cases op with
  | ixIntersect params =>
    by_cases shared : ∀ x ∈ merges, x.carries params
    · refine .inl (.intersect ?_ shared)
      rintro rfl
      cases accepted
    · push Not at shared
      obtain ⟨x, mem, uncarried⟩ := shared
      exact .inr ⟨_, .notShared mem fun limit op => uncarried (carries_iff.2 ⟨limit, op⟩)⟩
  | _ => cases kind

theorem extendable_or_flawed_of_ixMerge {p search : Plan} {more : List Plan} (checked : p.Checked)
    (kind : p.kind = .ixMerge) (below : p.inputs = search :: more) (searchKind : search.kind = .ixSearch) :
    Extendable (some p) ∨ ∃ fault, Flawed (some p) fault := by
  obtain ⟨i, op, inputs⟩ := p
  obtain ⟨j, op', oldKeys⟩ := search
  obtain rfl : inputs = node j op' oldKeys :: more := below
  obtain rfl : more = [] :=
    List.length_eq_zero_iff.1 (Nat.succ.inj (checked.root.length_inputs (by rw [kind]; rfl)))
  have searched := (checked.input List.mem_cons_self).root
  obtain ⟨oldKey, rfl⟩ : ∃ x, oldKeys = [x] :=
    List.length_eq_one_iff.1 (searched.length_inputs (by rw [searchKind]; rfl))
  cases op with
  | ixMerge params? limit =>
    cases op' with
    | ixSearch source unique outer searchParams? =>
      by_cases shared : params?.isSome = true ∨ searchParams?.isSome = true
      · exact .inr ⟨_, .sharedOutsideIntersect shared⟩
      · obtain ⟨rfl, rfl⟩ : params? = none ∧ searchParams? = none := by simpa using shared
        obtain ⟨index, known⟩ := check_ixSearch.1 searched
        exact .inl (.merge .intro known)
    | _ => cases searchKind
  | _ => cases kind

/-- Adding a search to a flawed row id source fails at once. -/
theorem fails_extendProbe_of_flawed [ParamAllocator] {existing : Option Plan} {fault : ProbeFault}
    (flawed : Flawed existing fault) (w : Workspace) :
    (extendProbe existing keys source).Fails w (.malformedProbe source.table.name fault) w := by
  cases flawed with
  | @notShared i params merges x mem other =>
    have unshared : (!merges.all (carries params)) = true := by
      rw [Bool.not_eq_true', List.all_eq_false]
      refine ⟨x, mem, fun carried => ?_⟩
      obtain ⟨limit, op⟩ := carries_iff.1 carried
      exact other limit op
    change (extendIntersect params merges keys source).Fails _ _ _
    unfold extendIntersect
    rw [if_pos unshared]
    exact Planner.fails_bind.2 (.inl (Planner.fails_throw _ w))
  | @sharedOutsideIntersect i j oldSource unique outer limit params? searchParams? oldKeys shared =>
    change (extendMerge params? (node j (.ixSearch oldSource unique outer searchParams?) oldKeys)
      keys source).Fails _ _ _
    unfold extendMerge
    simp only [Bool.or_eq_true, if_pos shared]
    exact Planner.fails_bind.2 (.inl (Planner.fails_throw _ w))

theorem ends_extendProbe_of_flawed [ParamAllocator] {existing : Option Plan} {fault : ProbeFault}
    (flawed : Flawed existing fault) :
    (extendProbe existing keys source).Ends (· = .error (.malformedProbe source.table.name fault)) :=
  fun w => congrArg Prod.fst (fails_extendProbe_of_flawed flawed w)

/-- What supplies the row ids afterwards is a merge or an intersection. -/
theorem ExtendedProbe.isProbe {existing : Option Plan} {p : Plan}
    (h : ExtendedProbe source keys existing p) :
    p.isProbe := by
  cases h with
  | first probe =>
    cases probe
    rfl
  | grown => rfl
  | promoted => rfl

section

variable {P : Plan → Prop} {p : Plan}

theorem SearchMerge.everywhere {params : Option GroupParams} (h : SearchMerge params source keys p)
    (below : keys.Everywhere P) (merge : P p)
    (search : ∀ i unique outer, P (node i (.ixSearch source unique outer params) [keys])) :
    p.Everywhere P := by
  cases h
  simp only [everywhere_node, List.forall_mem_singleton]
  exact ⟨merge, search _ _ _, below⟩

/-- A property spreads over an extended row id source if it held in the old one and in the search
keys, if it holds at the root, at merges of searches and at the new search, and if a search keeps it
under other parameters. -/
theorem ExtendedProbe.everywhere {existing : Option Plan} (h : ExtendedProbe source keys existing p)
    (below : keys.Everywhere P) (old : ∀ q ∈ existing, q.Everywhere P) (root : P p)
    (merge : ∀ params source keys x, SearchMerge params source keys x → P x)
    (search : ∀ i unique outer params, P (node i (.ixSearch source unique outer params) [keys]))
    (again : ∀ i j source unique outer unique' outer' params params' x,
      P (node i (.ixSearch source unique outer params) [x]) →
        P (node j (.ixSearch source unique' outer' params') [x])) : p.Everywhere P := by
  cases h with
  | first probe => exact probe.everywhere below root fun _ _ _ => search _ _ _ _
  | grown inhabited shared probe =>
    have merges := (everywhere_node.1 (old _ rfl)).2
    refine everywhere_node.2 ⟨root, fun x hx => ?_⟩
    rcases List.mem_append.1 hx with hx | hx
    · exact merges x hx
    · obtain rfl := List.mem_singleton.1 hx
      exact probe.everywhere below (merge _ _ _ _ probe) fun _ _ _ => search _ _ _ _
  | promoted lone rebuilt probe =>
    have before := old _ rfl
    cases lone
    simp only [everywhere_node, List.forall_mem_singleton] at before
    obtain ⟨-, oldSearch, oldKeys⟩ := before
    refine everywhere_node.2 ⟨root, fun x hx => ?_⟩
    rcases List.mem_cons.1 hx with rfl | hx
    · refine rebuilt.everywhere oldKeys (merge _ _ _ _ rebuilt) ?_
      exact fun _ _ _ => again _ _ _ _ _ _ _ _ _ _ oldSearch
    · obtain rfl := List.mem_singleton.1 hx
      exact probe.everywhere below (merge _ _ _ _ probe) fun _ _ _ => search _ _ _ _

end

end QueryPlan.Plan
