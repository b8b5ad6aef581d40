import QueryPlan.Proofs.Runs

/-!
# The placement of probes

In every plan that a run reaches from a plan without probes, the probes are where rules put them: a
probe is the first input of a scan or, if it is a merge, an input of an intersection. It consists of
merges over searches of the table that the scan reads, and it is either one merge without parameters
or an intersection whose merges and searches carry its parameters.
-/
namespace QueryPlan

/-- The source is an unclustered index of the table that the scan reads, and it is read through the
connection of the scan. -/
structure IndexSource.Serves (source : IndexSource) (s : TableScan) : Prop where
  table : source.table = s.table
  connection : source.connection = s.connection
  exists_index : ∃ index ∈ s.table.unclustered, index.id = source.index ∧
    ((s.table.indexes.map Index.id).Nodup → s.table.index? source.index = some index)

namespace Plan

/-- The row id sources that a scan may have. -/
inductive ProbeOf (s : TableScan) : Plan → Prop
  | lone {source : IndexSource} {keys p : Plan} (probe : SearchMerge none source keys p)
      (serves : source.Serves s) : ProbeOf s p
  | group {i : NodeId} {params : GroupParams} {merges : List Plan}
      (each : ∀ x ∈ merges, ∃ source keys, SearchMerge (some params) source keys x ∧ source.Serves s) :
      ProbeOf s (node i (.ixIntersect params) merges)

/-- The rules for probes that concern a node and its inputs. -/
structure WellProbed (p : Plan) : Prop where
  /-- A probe stands only in the first place of a scan or as a merge in an intersection. -/
  placed : ∀ n x, p.inputs[n]? = some x → x.isProbe →
    p.kind = .tableScan ∧ n = 0 ∨ p.kind = .ixIntersect ∧ x.kind = .ixMerge
  scan : ∀ s x, p.op = .tableScan s → probe? p.inputs = some x → ProbeOf s x
  merge : p.kind = .ixMerge → ∃ params source keys, SearchMerge params source keys p
  intersect : ∀ params, p.op = .ixIntersect params →
    ∀ x ∈ p.inputs, ∃ source keys, SearchMerge (some params) source keys x

/-- No probe is out of place in the plan. -/
structure ProbesPlaced (p : Plan) : Prop where
  root : p.isProbe = false
  nodes : p.Everywhere WellProbed

theorem wellProbed_of_forall_not_isProbe {p : Plan} (kind : p.isProbe = false)
    (inputs : ∀ x ∈ p.inputs, x.isProbe = false) : p.WellProbed where
  placed n x hx probe := by simp [inputs x (List.mem_of_getElem? hx)] at probe
  scan s x _ hx := by
    obtain ⟨head, probe⟩ := probe?_eq_some_iff.1 hx
    simp [inputs x (List.mem_of_getElem? head)] at probe
  merge h := by simp [isProbe_iff.2 (.inl h)] at kind
  intersect params h := by
    have : p.kind = .ixIntersect := by simp [Plan.kind, h, Operator.kind]
    simp [isProbe_iff.2 (.inr this)] at kind

/-- Below an operator that is neither a scan nor an intersection there is no probe. -/
theorem WellProbed.input_not_isProbe {p x : Plan} (h : p.WellProbed) (hx : x ∈ p.inputs)
    (scan : p.kind ≠ .tableScan) (intersect : p.kind ≠ .ixIntersect) : x.isProbe = false := by
  by_contra probe
  obtain ⟨n, hn⟩ := List.mem_iff_getElem?.1 hx
  rcases h.placed n x hn (by simpa using probe) with ⟨kind, -⟩ | ⟨kind, -⟩
  · exact scan kind
  · exact intersect kind

/-- Without probes none is out of place. -/
theorem probesPlaced_of_forall_not_isProbe {p : Plan} (h : ∀ q ∈ p.preorder, q.isProbe = false) :
    p.ProbesPlaced where
  root := h p p.self_mem_preorder
  nodes q hq := wellProbed_of_forall_not_isProbe (h q hq) fun x hx =>
    h x (mem_preorder_trans (mem_preorder_of_mem_inputs hx) hq)

/-! ## The new nodes of a rewriting -/

theorem SearchMerge.wellProbed {params : Option GroupParams} {source : IndexSource} {keys p : Plan}
    (h : SearchMerge params source keys p) : p.WellProbed where
  placed n x hx probe := by
    cases h
    obtain rfl : x = _ := (List.mem_singleton.1 (List.mem_of_getElem? hx))
    cases probe
  scan s x hs := by
    cases h
    cases hs
  merge _ := ⟨params, source, keys, h⟩
  intersect params' hp := by
    cases h
    cases hp

theorem SearchMerge.kind_eq {params : Option GroupParams} {source : IndexSource} {keys p : Plan}
    (h : SearchMerge params source keys p) : p.kind = .ixMerge := by
  cases h
  rfl

theorem wellProbed_intersect {i : NodeId} {params : GroupParams} {merges : List Plan}
    (each : ∀ x ∈ merges, ∃ source keys, SearchMerge (some params) source keys x) :
    (node i (.ixIntersect params) merges).WellProbed where
  placed n x hx _ := by
    obtain ⟨source, keys, probe⟩ := each x (List.mem_of_getElem? hx)
    exact .inr ⟨rfl, probe.kind_eq⟩
  scan _ _ hs := by cases hs
  merge h := by cases h
  intersect params' hp x hx := by
    cases hp
    exact each x hx

/-- A probe of the scan that is extended by a search of an index of its table is a probe of the
scan. -/
theorem ExtendedProbe.probeOf {s : TableScan} {source : IndexSource} {keys p : Plan}
    {existing : Option Plan} (h : ExtendedProbe source keys existing p) (serves : source.Serves s)
    (old : ∀ q ∈ existing, ProbeOf s q) :
    ProbeOf s p := by
  cases h with
  | first probe => exact .lone probe serves
  | grown inhabited shared probe =>
    cases old _ rfl with
    | lone lone => cases lone
    | group each =>
      refine .group fun x hx => ?_
      rcases List.mem_append.1 hx with hx | hx
      · exact each x hx
      · obtain rfl := List.mem_singleton.1 hx
        exact ⟨_, _, probe, serves⟩
  | promoted lone rebuilt probe =>
    cases lone
    cases old _ rfl with
    | lone lone oldServes =>
      cases lone
      refine .group fun x hx => ?_
      rcases List.mem_cons.1 hx with rfl | hx
      · exact ⟨_, _, rebuilt, oldServes⟩
      · obtain rfl := List.mem_singleton.1 hx
        exact ⟨_, _, probe, serves⟩

theorem ProbeOf.wellProbed {s : TableScan} {p : Plan} (h : ProbeOf s p) : p.WellProbed := by
  cases h with
  | lone probe => exact probe.wellProbed
  | group each =>
    refine wellProbed_intersect fun x hx => ?_
    obtain ⟨source, keys, probe, -⟩ := each x hx
    exact ⟨source, keys, probe⟩

/-- Only the first input of a scan can be a probe. -/
theorem WellProbed.residual_not_isProbe {i : NodeId} {s : TableScan} {inputs : List Plan}
    (h : (node i (.tableScan s) inputs).WellProbed) : ∀ x ∈ residual inputs, x.isProbe = false := by
  have first {n : Nat} {x : Plan} (hn : inputs[n]? = some x) (probe : x.isProbe = true) : n = 0 := by
    rcases h.placed n x hn probe with ⟨-, zero⟩ | ⟨kind, -⟩
    · exact zero
    · cases kind
  intro x hx
  by_contra ne
  have probe : x.isProbe = true := by simpa using ne
  unfold residual at hx
  split at hx
  · obtain ⟨n, hn⟩ := List.mem_iff_getElem?.1 hx
    rw [List.getElem?_tail] at hn
    cases first hn probe
  · next none =>
    obtain ⟨n, hn⟩ := List.mem_iff_getElem?.1 hx
    obtain rfl := first hn probe
    exact none (by simp [probe?_eq_some_iff.2 ⟨hn, probe⟩])

theorem wellProbed_tableScan {i : NodeId} {s : TableScan} {probe : Plan} {others : List Plan}
    (of : ProbeOf s probe) (plain : ∀ x ∈ others, x.isProbe = false) :
    (node i (.tableScan s) (probe :: others)).WellProbed where
  placed n x hx isProbe := by
    cases n with
    | zero => exact .inl ⟨rfl, rfl⟩
    | succ n => simp [plain x (List.mem_of_getElem? hx)] at isProbe
  scan s' x hs hx := by
    obtain ⟨head, -⟩ := probe?_eq_some_iff.1 hx
    cases hs
    cases head
    exact of
  merge h := by cases h
  intersect params h := by cases h

end Plan

namespace SemiJoinRule

open Plan

/-- The index of a rewriting serves the scan. -/
theorem Rewrites.serves {r : SemiJoinRule} {m : ScanSemiJoin} {c : Candidate} {q : Plan}
    (h : r.Rewrites m c q) : (m.source c.index).Serves m.scan where
  table := rfl
  connection := rfl
  exists_index := by
    refine ⟨c.index, h.mem_unclustered, rfl, fun distinct => ?_⟩
    exact Table.index?_eq_of_mem distinct (List.mem_of_mem_filter h.mem_unclustered)

theorem wellProbed_of_keyPlan {keys : List SearchKey} {rhs p : Plan} (h : SearchKey.KeyPlan keys rhs p)
    (plain : rhs.isProbe = false) (old : rhs.Everywhere WellProbed) : p.Everywhere WellProbed := by
  apply h.everywhere old
  · intro i e _
    exact wellProbed_of_forall_not_isProbe rfl (List.forall_mem_singleton.2 plain)
  · rintro i x (rfl | ⟨j, e, rfl⟩)
    · exact wellProbed_of_forall_not_isProbe rfl (List.forall_mem_singleton.2 plain)
    · exact wellProbed_of_forall_not_isProbe rfl (List.forall_mem_singleton.2 rfl)
  · intro i j cols fields x
    exact wellProbed_of_forall_not_isProbe rfl (List.forall_mem_singleton.2 rfl)

theorem Rewrites.wellProbed {r : SemiJoinRule} {m : ScanSemiJoin} {c : Candidate} {q : Plan}
    (h : r.Rewrites m c q) (old : m.plan.Everywhere WellProbed) : q.Everywhere WellProbed := by
  have serves := h.serves
  obtain ⟨-, -, -, searched, probed, -⟩ := h
  have lhs : m.lhs.Everywhere WellProbed := old.input m.lhs_mem_inputs
  have rhs : m.rhs.Everywhere WellProbed := old.input m.rhs_mem_inputs
  have rhsPlain : m.rhs.isProbe = false := old.root.input_not_isProbe m.rhs_mem_inputs nofun nofun
  have inputs := (everywhere_node.1 lhs).2
  have existing : ∀ q ∈ probe? m.inputs, ProbeOf m.scan q := fun q hq => lhs.root.scan m.scan q rfl hq
  have probeOf := probed.probeOf serves existing
  refine everywhere_node.2 ⟨wellProbed_tableScan probeOf lhs.root.residual_not_isProbe, fun x hx => ?_⟩
  rcases List.mem_cons.1 hx with rfl | hx
  · apply probed.everywhere (wellProbed_of_keyPlan searched rhsPlain rhs)
    · intro q hq
      exact inputs q (mem_of_probe?_eq_some hq)
    · exact probeOf.wellProbed
    · intro params source keys x probe
      exact probe.wellProbed
    · intro i unique outer params
      refine wellProbed_of_forall_not_isProbe rfl (List.forall_mem_singleton.2 ?_)
      exact searched.isProbe_eq
    · intro i j source unique outer unique' outer' params params' x before
      refine wellProbed_of_forall_not_isProbe rfl (List.forall_mem_singleton.2 ?_)
      exact before.input_not_isProbe (List.mem_singleton_self x) nofun nofun
  · exact inputs x (mem_of_mem_residual hx)

end SemiJoinRule

/-! ## The nodes around it -/

namespace Plan

variable {m : ScanSemiJoin} {replacement x y : Plan}

/-- Where a semijoin is replaced by a scan, every other node keeps its kind. -/
theorem Substituted.kind_eq_or (h : Substituted m.plan replacement x y) (alone : m.AloneIn x)
    (scan : replacement.kind = .tableScan) :
    y.kind = x.kind ∨ x.kind = .semiJoin ∧ y.kind = .tableScan := by
  cases h with
  | hit same =>
    rw [alone x x.self_mem_preorder same]
    exact .inr ⟨rfl, scan⟩
  | kept => exact .inl rfl
  | rebuilt => exact .inl rfl

theorem Substituted.kind_eq (h : Substituted m.plan replacement x y) (alone : m.AloneIn x)
    (scan : replacement.kind = .tableScan) (probe : y.isProbe = true) : y.kind = x.kind := by
  rcases h.kind_eq_or alone scan with same | ⟨-, kind⟩
  · exact same
  · simp [isProbe_iff, kind] at probe

theorem Substituted.isProbe_eq (h : Substituted m.plan replacement x y) (alone : m.AloneIn x)
    (scan : replacement.kind = .tableScan) : y.isProbe = x.isProbe := by
  rw [Bool.eq_iff_iff, isProbe_iff, isProbe_iff]
  rcases h.kind_eq_or alone scan with same | ⟨old, new⟩
  · rw [same]
  · simp [old, new]

/-- A merge of a search is built again as one, over search keys that may differ. -/
theorem SearchMerge.substituted {params : Option GroupParams} {source : IndexSource} {keys : Plan}
    (h : SearchMerge params source keys x) (sub : Substituted m.plan replacement x y)
    (alone : m.AloneIn x) : ∃ keys', SearchMerge params source keys' y := by
  obtain @⟨i, j, limit, unique, outer⟩ := h
  have search : node j (.ixSearch source unique outer params) [keys] ∈
      (node i (.ixMerge params limit) [node j (.ixSearch source unique outer params) [keys]]).preorder :=
    mem_preorder_of_mem_inputs (List.mem_singleton_self _)
  cases sub with
  | hit same => cases alone _ (self_mem_preorder _) same
  | kept => exact ⟨keys, .intro⟩
  | rebuilt inputs =>
    cases inputs with
    | cons first none =>
      cases none
      cases first with
      | hit same => cases alone _ search same
      | kept => exact ⟨keys, .intro⟩
      | rebuilt inputs =>
        cases inputs with
        | cons first none =>
          cases none
          exact ⟨_, .intro⟩

theorem ProbeOf.substituted {s : TableScan} (h : ProbeOf s x) (sub : Substituted m.plan replacement x y)
    (alone : m.AloneIn x) : ProbeOf s y := by
  cases h with
  | lone probe serves =>
    obtain ⟨keys, again⟩ := probe.substituted sub alone
    exact .lone again serves
  | group each =>
    cases sub with
    | hit same => cases alone _ (self_mem_preorder _) same
    | kept => exact .group each
    | rebuilt inputs =>
      refine .group fun z hz => ?_
      obtain ⟨a, ha, sub⟩ := exists_left_of_forall₂ inputs hz
      obtain ⟨source, keys, probe, serves⟩ := each a ha
      obtain ⟨keys', again⟩ := probe.substituted sub (alone.of_mem (mem_preorder_of_mem_inputs ha))
      exact ⟨source, keys', again, serves⟩

theorem WellProbed.rebuilt {i j : NodeId} {op : Operator} {xs ys : List Plan}
    (h : (node i op xs).WellProbed) (inputs : List.Forall₂ (Substituted m.plan replacement) xs ys)
    (alone : m.AloneIn (node i op xs)) (scan : replacement.kind = .tableScan) : (node j op ys).WellProbed := by
  have each {n : Nat} {y : Plan} (hy : ys[n]? = some y) :
      ∃ x, xs[n]? = some x ∧ Substituted m.plan replacement x y ∧ m.AloneIn x := by
    obtain ⟨x, hx, sub⟩ := exists_getElem?_left_of_forall₂ inputs hy
    exact ⟨x, hx, sub, alone.of_mem (mem_preorder_of_mem_inputs (List.mem_of_getElem? hx))⟩
  constructor
  case placed =>
    intro n y hy probe
    obtain ⟨x, hx, sub, aloneHere⟩ := each hy
    rw [sub.kind_eq aloneHere scan probe]
    exact h.placed n x hx (sub.isProbe_eq aloneHere scan ▸ probe)
  case scan =>
    intro s y hs hy
    obtain ⟨head, probe⟩ := probe?_eq_some_iff.1 hy
    obtain ⟨x, hx, sub, aloneHere⟩ := each head
    have before : probe? xs = some x := probe?_eq_some_iff.2 ⟨hx, sub.isProbe_eq aloneHere scan ▸ probe⟩
    exact (h.scan s x hs before).substituted sub aloneHere
  case merge =>
    intro kind
    obtain ⟨params, source, keys, probe⟩ := h.merge kind
    obtain ⟨keys', again⟩ := probe.substituted (.rebuilt inputs) alone
    exact ⟨params, source, keys', again⟩
  case intersect =>
    intro params hp y hy
    obtain ⟨n, hn⟩ := List.mem_iff_getElem?.1 hy
    obtain ⟨x, hx, sub, aloneHere⟩ := each hn
    obtain ⟨source, keys, probe⟩ := h.intersect params hp x (List.mem_of_getElem? hx)
    obtain ⟨keys', again⟩ := probe.substituted sub aloneHere
    exact ⟨source, keys', again⟩

/-- A step of a run leaves no probe out of place. -/
theorem ProbesPlaced.step {p q : Plan} (h : p.ProbesPlaced) (step : Step p q) : q.ProbesPlaced := by
  obtain ⟨found, alone, rewrites, substituted⟩ := step
  have scan := rewrites.kind_eq
  constructor
  · rw [substituted.isProbe_eq alone scan]
    exact h.root
  · apply substituted.everywhere h.nodes (rewrites.wellProbed (h.nodes.of_mem found))
    intro i j op xs ys inside before inputs
    exact before.rebuilt inputs (alone.of_mem inside) scan

end Plan

/-- In every plan that a run reaches from a plan without probes, no probe is out of place. -/
theorem Run.probesPlaced [ParamAllocator] {w v : Workspace} {p q : Plan} (holds : w.Holds p.preorder)
    (none : ∀ x ∈ p.preorder, x.isProbe = false) (run : Run w p v q) : q.ProbesPlaced :=
  run.invariant holds (Plan.probesPlaced_of_forall_not_isProbe none) fun _ _ => Plan.ProbesPlaced.step

/-- The run that groups two probes puts the group and its merges in place. -/
theorem Run.probesPlaced_pairsThriceJoined :
    ∃ v q, Run { nextNode := 8 } .pairsThriceJoined v q ∧ q.any (·.kind = .ixIntersect) = true ∧
      q.ProbesPlaced := by
  obtain ⟨v, q, -, run, group, -⟩ := Run.exists_pairsThriceJoined
  exact ⟨v, q, run, group, Run.probesPlaced Plan.holds_pairsThriceJoined (by decide) run⟩

end QueryPlan
