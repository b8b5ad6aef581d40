import Mathlib.Data.List.ReduceOption
import QueryPlan.Proofs.Outcomes
import QueryPlan.Proofs.Termination

/-!
# The rules beside each other

Which rule engages with a semijoin is decided by the kind of its row id source, so no two rules for
different shapes act on one plan, and firing them all offers at most one alternative for each place. A
rule engages with every semijoin whose row id source is sound, except where the scan has one plain input
and no extra filter: the bare rule leaves such a scan alone, and it has no probe to intersect with.
-/
namespace QueryPlan

namespace Pattern

theorem isSome_bind?_nil {kind : OperatorKind} {p : Plan} :
    ((operand kind []).bind? p).isSome ↔ p.kind = kind := by
  simp only [Option.isSome_iff_exists, bind?_operand_nil, exists_and_left, exists_eq, and_true]

theorem isSome_bind?_singleton {kind : OperatorKind} {child : Pattern} {p : Plan} :
    ((operand kind [child]).bind? p).isSome ↔
      p.kind = kind ∧ ∃ x ∈ p.inputs.head?, (child.bind? x).isSome := by
  simp only [Option.isSome_iff_exists, bind?_operand_singleton, exists_and_left]
  refine and_congr_right fun _ => ?_
  cases p.inputs with
  | nil => simp
  | cons x xs => simp

end Pattern

namespace ScanShape

/-- Do the inputs of a scan begin as the pattern of the shape demands? -/
def Suits : ScanShape → List Plan → Prop
  | scan, _ => True
  | intersect, inputs => ∃ x ∈ inputs.head?, x.kind = .ixIntersect
  | merge, inputs => ∃ x ∈ inputs.head?, x.kind = .ixMerge ∧ ∃ y ∈ x.inputs.head?, y.kind = .ixSearch

/-- On a semijoin of a scan, the pattern looks at the inputs of the scan only. -/
theorem isSome_bind?_iff {shape : ScanShape} {m : ScanSemiJoin} :
    (shape.pattern.bind? m.plan).isSome ↔ shape.Suits m.inputs := by
  have whole (c : Pattern) : ((Pattern.operand .semiJoin [c]).bind? m.plan).isSome ↔
      (c.bind? m.lhs).isSome := by
    rw [Pattern.isSome_bind?_singleton]
    simp [ScanSemiJoin.plan, Operator.kind]
  cases shape <;> simp [pattern, whole, Pattern.isSome_bind?_singleton, Pattern.isSome_bind?_nil,
    ScanSemiJoin.lhs, Operator.kind, Suits]

/-- The kind of row id source in the pattern. -/
def probeKind? : ScanShape → Option OperatorKind
  | scan => none
  | intersect => some .ixIntersect
  | merge => some .ixMerge

theorem probeKind?_injective : Function.Injective probeKind? := by
  rintro ⟨⟩ ⟨⟩ h
  all_goals first | rfl | cases h

/-- A longer shape suits a scan with a row id source of its kind, which reads a search if it is a merge. -/
theorem suits_iff {shape : ScanShape} (longer : shape ≠ .scan) {inputs : List Plan} :
    shape.Suits inputs ↔ ∃ x ∈ Plan.probe? inputs, shape.probeKind? = some x.kind ∧
      (x.kind = .ixMerge → ∃ y ∈ x.inputs.head?, y.kind = .ixSearch) := by
  have source {x : Plan} : x ∈ Plan.probe? inputs ↔
      x ∈ inputs.head? ∧ (x.kind = .ixMerge ∨ x.kind = .ixIntersect) := by
    rw [Plan.probe?, Option.mem_filter_iff, Plan.isProbe_iff]
  cases shape with
  | scan => exact absurd rfl longer
  | intersect =>
    constructor
    · rintro ⟨x, first, kind⟩
      refine ⟨x, source.2 ⟨first, .inr kind⟩, by rw [kind]; rfl, fun merge => ?_⟩
      rw [kind] at merge
      cases merge
    · rintro ⟨x, probe, kind, -⟩
      exact ⟨x, (source.1 probe).1, (Option.some.inj kind).symm⟩
  | merge =>
    constructor
    · rintro ⟨x, first, kind, reads⟩
      exact ⟨x, source.2 ⟨first, .inl kind⟩, by rw [kind]; rfl, fun _ => reads⟩
    · rintro ⟨x, probe, kind, reads⟩
      have merge := (Option.some.inj kind).symm
      exact ⟨x, (source.1 probe).1, merge, reads merge⟩

end ScanShape

/-! ## At most one rule acts -/

namespace SemiJoinRule

variable {r r' : SemiJoinRule} {p : Plan} {m : ScanSemiJoin}

/-- With some allocator and in some workspace the rule does not decline the plan. -/
def Acts (r : SemiJoinRule) (p : Plan) : Prop :=
  ∃ (_ : ParamAllocator) (w : Workspace), ((r.toRule.attempt p).outcome w).1 ≠ .ok none

theorem Acts.exists_engages (h : r.Acts p) : ∃ m : ScanSemiJoin, p = m.plan ∧ r.Engages m := by
  by_contra idle
  obtain ⟨allocator, w, acts⟩ := h
  exact acts (ends_attempt_of_not_engages idle w)

theorem acts_of_yields [ParamAllocator] {q : Plan} (h : (r.toRule.attempt p).Yields (some q)) : r.Acts p := by
  obtain ⟨w, v, returned⟩ := h
  exact ⟨_, w, by rw [returned]; nofun⟩

/-- The row id source of the scan tells which rule engages. -/
theorem Engages.kind_probe? (engages : r.Engages m) :
    (Plan.probe? m.inputs).map Plan.kind = r.shape.probeKind? := by
  by_cases bare : r.shape = .scan
  · have lone := engages.undeferred
    obtain ⟨shape, options⟩ := r
    obtain rfl : shape = .scan := bare
    rw [probe?_eq_none_of_undeferred lone]
    rfl
  · obtain ⟨x, probe, kind, -⟩ :=
      (ScanShape.suits_iff bare).1 (ScanShape.isSome_bind?_iff.1 engages.matched)
    rw [show Plan.probe? m.inputs = some x from probe, Option.map_some, kind]

/-- Rules that act on one plan have one shape. -/
theorem shape_eq_of_acts (acts : r.Acts p) (acts' : r'.Acts p) : r.shape = r'.shape := by
  obtain ⟨m, rfl, engages⟩ := acts.exists_engages
  obtain ⟨m', same, engages'⟩ := acts'.exists_engages
  obtain rfl := ScanSemiJoin.plan_injective same
  exact ScanShape.probeKind?_injective (engages.kind_probe?.symm.trans engages'.kind_probe?)

end SemiJoinRule

namespace RuleSet

/-- `Offered rules p a?`: the rules have offered `a?` for the operator `p`. None of them has returned a
plan if that is nothing, and otherwise the operator is a semijoin that one of them has rewritten. -/
inductive Offered [ParamAllocator] (rules : List SemiJoinRule) (p : Plan) : Option Alternative → Prop
  | nothing (declined : ∀ r ∈ rules, (r.toRule.attempt p).Yields none) : Offered rules p none
  | one {r : SemiJoinRule} {q : Plan} (mem : r ∈ rules) (semijoin : p.kind = .semiJoin)
      (returned : (r.toRule.attempt p).Yields (some q)) : Offered rules p (some ⟨r.name, p, q⟩)

variable {rules : List SemiJoinRule} {p : Plan}

theorem Offered.cons [ParamAllocator] {r : SemiJoinRule} {q? : Option Plan} {a? : Option Alternative}
    (first : (r.toRule.attempt p).Yields q?) (rest : Offered rules p a?)
    (apart : ∀ r' ∈ rules, r.shape ≠ r'.shape) :
    ∃ b?, Offered (r :: rules) p b? ∧
      b?.toList = (q?.map (Alternative.mk r.name p)).toList ++ a?.toList := by
  cases q? with
  | none =>
    cases rest with
    | nothing declined => exact ⟨none, .nothing (List.forall_mem_cons.2 ⟨first, declined⟩), rfl⟩
    | one mem semijoin returned => exact ⟨_, .one (List.mem_cons_of_mem _ mem) semijoin returned, rfl⟩
  | some q =>
    cases rest with
    | nothing declined =>
      obtain ⟨m, c, rfl, -⟩ := SemiJoinRule.rewrites_of_attempt first
      exact ⟨_, .one List.mem_cons_self rfl first, rfl⟩
    | one mem semijoin returned =>
      -- Two rules would have rewritten the operator.
      have same := SemiJoinRule.shape_eq_of_acts (SemiJoinRule.acts_of_yields first)
        (SemiJoinRule.acts_of_yields returned)
      exact absurd same (apart _ mem)

/-- Rules for different shapes offer at most one alternative for an operator. -/
theorem exists_offered [ParamAllocator] (apart : rules.Pairwise fun r r' => r.shape ≠ r'.shape)
    {offers : List (List Alternative)}
    (h : ((rules.map SemiJoinRule.toRule).mapM fun rule => offer rule p).Yields offers) :
    ∃ a?, Offered rules p a? ∧ offers.flatten = a?.toList := by
  induction rules generalizing offers with
  | nil =>
    obtain rfl := Planner.yields_pure.1 h
    exact ⟨none, .nothing nofun, rfl⟩
  | cons r rules ih =>
    rw [List.map_cons, List.mapM_cons] at h
    obtain ⟨here, ⟨w, v, first⟩, h⟩ := Planner.yields_bind h
    obtain ⟨others, rest, h⟩ := Planner.yields_bind h
    obtain rfl := Planner.yields_pure.1 h
    obtain ⟨different, apart⟩ := List.pairwise_cons.1 apart
    obtain ⟨u, q?, -, -, attempted, rfl⟩ := returns_offer first
    obtain ⟨a?, offered, eq⟩ := ih apart rest
    obtain ⟨b?, offered', eq'⟩ := offered.cons attempted.yields different
    refine ⟨b?, offered', ?_⟩
    rw [List.flatten_cons, eq]
    exact eq'.symm

theorem exists_offered_mapM [ParamAllocator] (apart : rules.Pairwise fun r r' => r.shape ≠ r'.shape)
    {ps : List Plan} {offers : List (List (List Alternative))}
    (h : (ps.mapM fun p => (rules.map SemiJoinRule.toRule).mapM fun rule => offer rule p).Yields offers) :
    ∃ offered, List.Forall₂ (Offered rules) ps offered ∧ offers.flatten.flatten = offered.reduceOption := by
  induction ps generalizing offers with
  | nil =>
    obtain rfl := Planner.yields_pure.1 h
    exact ⟨[], .nil, rfl⟩
  | cons p ps ih =>
    rw [List.mapM_cons] at h
    obtain ⟨here, first, h⟩ := Planner.yields_bind h
    obtain ⟨others, rest, h⟩ := Planner.yields_bind h
    obtain rfl := Planner.yields_pure.1 h
    obtain ⟨a?, one, eq⟩ := exists_offered apart first
    obtain ⟨offered, all, eq'⟩ := ih rest
    refine ⟨a? :: offered, .cons one all, ?_⟩
    rw [List.flatten_cons, List.flatten_append, eq, eq']
    cases a? <;> rfl

/-- No two rules for different shapes act on one plan, whatever hands out the parameters to each. Firing them
all on a plan offers at most one alternative for each place, which is then that of a semijoin, and offers them
in pre-order. -/
theorem at_most_one_alternative :
    (∀ (p : Plan) (r r' : SemiJoinRule), r.Acts p → r'.Acts p → r.shape = r'.shape) ∧
    ∀ [ParamAllocator] (options : RuleOptions) (root : Plan) (w w' : Workspace) (alts : List Alternative),
      (alternatives (ofOptions options) root).Returns w alts w' →
        ∃ offered, List.Forall₂ (Offered (SemiJoinRule.all options.semiJoin)) root.preorder offered ∧
          alts = offered.reduceOption := by
  refine ⟨fun p r r' => SemiJoinRule.shape_eq_of_acts, fun {_} options root w w' alts h => ?_⟩
  obtain ⟨offers, v, each, h⟩ := Planner.returns_bind.1 h
  obtain ⟨rfl, rfl⟩ := Planner.returns_pure.1 h
  have apart : (SemiJoinRule.all options.semiJoin).Pairwise fun r r' => r.shape ≠ r'.shape := by
    simp [SemiJoinRule.all]
  exact exists_offered_mapM apart each.yields

/-- A semijoin that stands at two places is offered for both, by the bare rule. -/
theorem at_most_one_alternative_pairsTwice :
    (∃ w alts offered, (alternatives (ofOptions {}) Plan.pairsTwice).Returns { nextNode := 5 } alts w ∧
      List.Forall₂ (Offered (SemiJoinRule.all {})) Plan.pairsTwice.preorder offered ∧
      alts = offered.reduceOption ∧ alts.length = 2) ∧
    ∃ (p : Plan) (r r' : SemiJoinRule), r.options ≠ r'.options ∧ r.Acts p ∧ r'.Acts p ∧ r.shape = r'.shape := by
  constructor
  · have run : (alternatives (ofOptions {}) Plan.pairsTwice).leadsTo { nextNode := 5 }
        (fun alts _ => decide (alts.length = 2)) := by
      decide +kernel
    obtain ⟨alts, w, fired, two⟩ := Planner.exists_of_leadsTo run
    obtain ⟨offered, each, eq⟩ := at_most_one_alternative.2 {} Plan.pairsTwice _ w alts fired
    exact ⟨w, alts, offered, fired, each, eq, of_decide_eq_true two⟩
  · have acts (options : SemiJoinOptions) : (SemiJoinRule.mk .scan options).Acts
        (ScanSemiJoin.ofPairs [.onPairs 1 [0]] [0]).plan := by
      have engages : (SemiJoinRule.mk .scan options).Engages (.ofPairs [.onPairs 1 [0]] [0]) :=
        ⟨rfl, rfl, .inl rfl⟩
      obtain ⟨q, result⟩ := engages.exists_rewritten (by decide) ScanSemiJoin.indexed_ofPairs .none {}
      exact ⟨_, {}, by rw [result]; nofun⟩
    exact ⟨_, ⟨.scan, {}⟩, ⟨.scan, { intersect := false }⟩, by decide, acts _, acts _,
      at_most_one_alternative.1 _ _ _ (acts _) (acts _)⟩

end RuleSet

/-! ## Which semijoins some rule rewrites -/

/-- The scan has one input, which is no row id source, and no extra filter. -/
def ScanSemiJoin.Stray (m : ScanSemiJoin) : Prop :=
  m.inputs.length = 1 ∧ m.scan.extraFilter = false ∧ Plan.probe? m.inputs = none

namespace SemiJoinRule

open Plan ScanShape

variable {options : SemiJoinOptions} {m : ScanSemiJoin}

theorem defers_scan_iff {s : TableScan} {inputs : List Plan} :
    (SemiJoinRule.mk .scan options).defers s inputs = true ↔
      inputs.length = 1 ∧ s.extraFilter = false ∨ (probe? inputs).isSome := by
  simp [defers]

/-- There is a longer shape for every scan with a row id source other than a merge that does not read a
search. -/
theorem exists_longer_iff {inputs : List Plan} :
    (∃ shape : ScanShape, shape ≠ .scan ∧ shape.Suits inputs) ↔
      ∃ x ∈ probe? inputs, x.kind = .ixMerge → ∃ y ∈ x.inputs.head?, y.kind = .ixSearch := by
  constructor
  · rintro ⟨shape, longer, suits⟩
    obtain ⟨x, probe, -, reads⟩ := (suits_iff longer).1 suits
    exact ⟨x, probe, reads⟩
  · rintro ⟨x, probe, reads⟩
    rcases isProbe_iff.1 (probe?_eq_some_iff.1 probe).2 with kind | kind
    · have longer : ScanShape.merge ≠ .scan := nofun
      exact ⟨.merge, longer, (suits_iff longer).2 ⟨x, probe, by rw [kind]; rfl, reads⟩⟩
    · have longer : ScanShape.intersect ≠ .scan := nofun
      exact ⟨.intersect, longer, (suits_iff longer).2 ⟨x, probe, by rw [kind]; rfl, reads⟩⟩

theorem ends_attempt_of_stray [ParamAllocator] {r : SemiJoinRule} (stray : m.Stray) :
    (r.toRule.attempt m.plan).Ends (· = .ok none) := by
  apply ends_attempt_of_not_engages
  rintro ⟨m', same, engages⟩
  obtain rfl := ScanSemiJoin.plan_injective same
  have kind := engages.kind_probe?
  rw [stray.2.2, Option.map_none] at kind
  have bare : r.shape = .scan := ScanShape.probeKind?_injective kind.symm
  have undeferred := engages.undeferred
  obtain ⟨shape, options⟩ := r
  obtain rfl : shape = .scan := bare
  have defers : (SemiJoinRule.mk .scan options).defers m.scan m.inputs = true :=
    defers_scan_iff.2 (.inl ⟨stray.1, stray.2.1⟩)
  exact Bool.false_ne_true (undeferred.symm.trans defers)

/-- Where searches can be added and intersecting is enabled, some rule engages unless the scan has one
plain input and no extra filter. -/
theorem exists_engages {m : ScanSemiJoin} (enabled : options.intersect = true)
    (extendable : Extendable (probe? m.inputs)) (unstray : ¬m.Stray) :
    ∃ r ∈ all options, r.Engages m := by
  cases probe : probe? m.inputs with
  | none =>
    refine ⟨⟨.scan, options⟩, List.mem_cons_self, isSome_bind?_iff.2 trivial, ?_, .inl rfl⟩
    rw [← Bool.not_eq_true, defers_scan_iff, probe]
    rintro (⟨one, unfiltered⟩ | some)
    · exact unstray ⟨one, unfiltered, probe⟩
    · cases some
  | some x =>
    have reads : x.kind = .ixMerge → ∃ y ∈ x.inputs.head?, y.kind = .ixSearch :=
      extendable.reads_search probe
    obtain ⟨shape, longer, suits⟩ := exists_longer_iff.2 ⟨x, probe, reads⟩
    refine ⟨⟨shape, options⟩, ?_, isSome_bind?_iff.2 suits, by simp [defers, longer], .inr enabled⟩
    cases shape <;> simp [all]

/-- The bare rule leaves a scan to a longer shape, unless the scan has one plain input and no extra
filter, or its row id source is a merge that does not read a search. So a checked semijoin with valid
indexes, one of which leads with a left key, and with a row id source to which a search can be added, if
there is one, is rewritten by some rule unless its scan has one plain input and no extra filter. -/
theorem exists_rule_iff_not_stray [ParamAllocator] (options : SemiJoinOptions) (m : ScanSemiJoin) :
    ((SemiJoinRule.mk .scan options).defers m.scan m.inputs = true →
      ((∃ shape : ScanShape, shape ≠ .scan ∧ (shape.pattern.bind? m.plan).isSome) ↔
        ¬m.Stray ∧ ∀ x ∈ probe? m.inputs, x.kind = .ixMerge → ∃ y ∈ x.inputs.head?, y.kind = .ixSearch)) ∧
    (m.plan.Checked → options.intersect = true → m.Indexed → Extendable (probe? m.inputs) →
      ((∃ r ∈ all options, ∀ w, ∃ q, ((r.toRule.attempt m.plan).outcome w).1 = .ok (some q)) ↔
        ¬m.Stray)) := by
  constructor
  · intro deferred
    simp only [isSome_bind?_iff, exists_longer_iff]
    constructor
    · rintro ⟨x, probe, reads⟩
      refine ⟨fun ⟨_, _, plain⟩ => (nomatch plain.symm.trans probe), fun y probe' => ?_⟩
      obtain rfl : x = y := Option.some.inj (probe.symm.trans probe')
      exact reads
    · rintro ⟨unstray, reads⟩
      cases probe : probe? m.inputs with
      | some x => exact ⟨x, rfl, reads x probe⟩
      | none =>
        rw [defers_scan_iff, probe] at deferred
        exact absurd ⟨(deferred.resolve_right nofun).1, (deferred.resolve_right nofun).2, probe⟩ unstray
  · intro checked enabled indexed extendable
    constructor
    · rintro ⟨r, -, rewrites⟩ stray
      obtain ⟨q, rewritten⟩ := rewrites {}
      exact nomatch rewritten.symm.trans (ends_attempt_of_stray stray {})
    · intro unstray
      obtain ⟨r, mem, engages⟩ := exists_engages enabled extendable unstray
      exact ⟨r, mem, engages.exists_rewritten checked indexed extendable⟩

end SemiJoinRule

/-- An indexed semijoin of pairs whose scan has the given inputs. -/
def ScanSemiJoin.overInputs (inputs : List Plan) : ScanSemiJoin :=
  { ofPairs [.onPairs 1 [0]] [0] with inputs }

/-- A merge that reads no search. -/
def Plan.bareMerge : Plan := .node 4 (.ixMerge none (.ofNat 0)) [morePairs]

/-- The row ids of pairs with the values of other pairs. -/
def Plan.pairsProbe : Plan :=
  .node 5 (.ixMerge none (.ofNat 0))
    [.node 4 (.ixSearch ⟨(TableScan.ofPairs 0 [.onPairs 1 [0]]).table, .ofNat 1, .ofNat 0⟩ true false none)
      [morePairs]]

namespace SemiJoinRule

open Plan

/-- The bare rule leaves a scan that reads through a search alone, and the rule for that shape adds
another search. -/
theorem rewritten_of_pairsProbe :
    (SemiJoinRule.mk .scan {}).defers (ScanSemiJoin.overInputs [pairsProbe]).scan [pairsProbe] = true ∧
    (∃ shape : ScanShape, shape ≠ .scan ∧
      (shape.pattern.bind? (ScanSemiJoin.overInputs [pairsProbe]).plan).isSome) ∧
    ∃ r ∈ all {}, ∀ w, ∃ q,
      ((r.toRule.attempt (ScanSemiJoin.overInputs [pairsProbe]).plan).outcome w).1 = .ok (some q) := by
  obtain ⟨matched, rewritten⟩ := exists_rule_iff_not_stray {} (.overInputs [pairsProbe])
  have unstray : ¬(ScanSemiJoin.overInputs [pairsProbe]).Stray := fun stray => nomatch stray.2.2
  have indexed : (ScanSemiJoin.overInputs [pairsProbe]).Indexed :=
    ⟨ScanSemiJoin.indexed_ofPairs.inside, ScanSemiJoin.indexed_ofPairs.leading⟩
  refine ⟨rfl, (matched rfl).2 ⟨unstray, ?_⟩, (rewritten (by decide) rfl indexed ?_).2 unstray⟩
  · rintro x probe -
    obtain rfl := Option.some.inj probe
    exact ⟨_, rfl, rfl⟩
  · exact .merge .intro rfl

/-- A scan with one plain input and no extra filter is left alone by the bare rule, but no longer shape
matches it, so no rule rewrites the semijoin in spite of its index. Neither does a longer shape match a
scan whose row id source is a merge that reads no search. -/
theorem not_rewritten_of_plain_input :
    ((ScanSemiJoin.overInputs [morePairs]).plan.Checked ∧
      (ScanSemiJoin.overInputs [morePairs]).Indexed ∧ Extendable (probe? [morePairs]) ∧
      (SemiJoinRule.mk .scan {}).defers (ScanSemiJoin.overInputs [morePairs]).scan [morePairs] = true ∧
      (∀ shape : ScanShape, shape ≠ .scan →
        shape.pattern.bind? (ScanSemiJoin.overInputs [morePairs]).plan = none) ∧
      ∀ r ∈ all {}, (r.toRule.attempt (ScanSemiJoin.overInputs [morePairs]).plan).Ends (· = .ok none)) ∧
    (ScanSemiJoin.overInputs [bareMerge]).plan.Checked ∧
      (SemiJoinRule.mk .scan {}).defers (ScanSemiJoin.overInputs [bareMerge]).scan [bareMerge] = true ∧
      ∀ shape : ScanShape, shape ≠ .scan →
        shape.pattern.bind? (ScanSemiJoin.overInputs [bareMerge]).plan = none := by
  have stray : (ScanSemiJoin.overInputs [morePairs]).Stray := ⟨rfl, rfl, rfl⟩
  refine ⟨⟨by decide, ?_, .none, rfl, ?_, fun r _ => ends_attempt_of_stray stray⟩, by decide, rfl, ?_⟩
  · exact ⟨ScanSemiJoin.indexed_ofPairs.inside, ScanSemiJoin.indexed_ofPairs.leading⟩
  · rintro ⟨⟩ longer
    · exact absurd rfl longer
    · rfl
    · rfl
  · rintro ⟨⟩ longer
    · exact absurd rfl longer
    · rfl
    · rfl

end SemiJoinRule

end QueryPlan
