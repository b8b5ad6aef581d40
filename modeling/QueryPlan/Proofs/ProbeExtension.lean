import QueryPlan.Proofs.Rewriting

/-!
# Adding a search to a row id source

A search can be added where there is no row id source, to an intersection of merges that carry its
parameters, and to a lone merge of a search without parameters. Every other row id source is refused as
malformed (`Plan.Refused`). What is returned is a group, in which each merge reads a search and both
carry the parameters of the intersection, exactly if the intersection that was extended is one: of its
merges only their own parameters are looked at (`Plan.grouped_iff_of_extendProbe`).
-/
namespace QueryPlan.Plan

/-- The row id sources to which no search is added, with the fault that is reported of them. -/
inductive Refused : Option Plan → ProbeFault → Prop
  | flawed {existing : Option Plan} {fault : ProbeFault} (flawed : Flawed existing fault) :
      Refused existing fault
  | noSearch {i : NodeId} {params? : Option GroupParams} {limit : ParamId} {below : Plan}
      (other : below.kind ≠ .ixSearch) :
      Refused (some (node i (.ixMerge params? limit) [below])) .noSearch
  | notProbe {p : Plan} (other : p.isProbe = false) : Refused (some p) .notProbe

/-- If the plan is an intersection, each of its inputs is a merge that reads a search, and both carry
the parameters of the intersection. -/
def Grouped (p : Plan) : Prop :=
  ∀ params, p.op = .ixIntersect params →
    ∀ x ∈ p.inputs, ∃ source keys, SearchMerge (some params) source keys x

variable {source : IndexSource} {keys p : Plan} {existing : Option Plan} {fault : ProbeFault}

/-! ## What is refused -/

theorem fails_extendProbe_of_refused [ParamAllocator] (refused : Refused existing fault) (w : Workspace) :
    (extendProbe existing keys source).Fails w (.malformedProbe source.table.name fault) w := by
  cases refused with
  | flawed flawed => exact fails_extendProbe_of_flawed flawed w
  | @noSearch i params? limit below other =>
    obtain ⟨j, op, oldKeys⟩ := below
    cases op with
    | ixSearch => exact absurd rfl other
    | _ => exact Planner.fails_throw _ w
  | @notProbe p other =>
    obtain ⟨i, op, inputs⟩ := p
    cases op with
    | ixMerge => cases other
    | ixIntersect => cases other
    | _ => exact Planner.fails_throw _ w

theorem Extendable.isProbe (h : Extendable (some p)) : p.isProbe = true := by
  cases h with
  | intersect => rfl
  | merge probe =>
    cases probe
    rfl

theorem Extendable.not_refused (h : Extendable existing) : ¬Refused existing fault := by
  intro refused
  cases refused with
  | flawed flawed => exact h.not_flawed flawed
  | noSearch other =>
    obtain ⟨y, below, kind⟩ := h.reads_search rfl rfl
    obtain rfl := Option.some.inj below
    exact other kind
  | notProbe other => exact Bool.false_ne_true (other.symm.trans h.isProbe)

theorem Refused.fault_unique {fault' : ProbeFault} (h : Refused existing fault)
    (h' : Refused existing fault') : fault = fault' := by
  cases h with
  | flawed flawed =>
    cases h' with
    | flawed flawed' => exact flawed.fault_unique flawed'
    | noSearch other =>
      cases flawed
      exact absurd rfl other
    | notProbe other => cases flawed <;> cases other
  | noSearch other =>
    cases h' with
    | flawed flawed' =>
      cases flawed'
      exact absurd rfl other
    | noSearch => rfl
    | notProbe other' => cases other'
  | notProbe other =>
    cases h' with
    | flawed flawed' => cases flawed' <;> cases other
    | noSearch => cases other
    | notProbe => rfl

/-- A search can be added to a checked row id source, or it is refused. -/
theorem extendable_or_refused (checked : ∀ x ∈ existing, x.Checked) :
    Extendable existing ∨ ∃ fault, Refused existing fault := by
  cases existing with
  | none => exact .inl .none
  | some p =>
    have checked := checked p rfl
    have refuse : (Extendable (some p) ∨ ∃ fault, Flawed (some p) fault) →
        Extendable (some p) ∨ ∃ fault, Refused (some p) fault :=
      Or.imp_right fun ⟨fault, flawed⟩ => ⟨fault, .flawed flawed⟩
    cases probe : p.isProbe with
    | false => exact .inr ⟨_, .notProbe probe⟩
    | true =>
      rcases isProbe_iff.1 probe with kind | kind
      · obtain ⟨below, inputs⟩ : ∃ x, p.inputs = [x] :=
          List.length_eq_one_iff.1 (checked.root.length_inputs (by rw [kind]; rfl))
        by_cases search : below.kind = .ixSearch
        · exact refuse (extendable_or_flawed_of_ixMerge checked kind inputs search)
        · obtain ⟨i, op, xs⟩ := p
          obtain rfl : xs = [below] := inputs
          cases op with
          | ixMerge => exact .inr ⟨_, .noSearch search⟩
          | _ => cases kind
      · exact refuse (extendable_or_flawed_of_ixIntersect checked.root kind)

/-! ## Indexes that the table lacks -/

theorem ends_indexProbe_of_unknown [ParamAllocator] {params : Option GroupParams} {e : PlanError}
    (unknown : source.table.index source.index = .error e) :
    (indexProbe keys source params).Ends (· = .error e) := by
  have check : (Operator.ixSearch source true false params).check [keys.rowType] = .error e := by
    change (discard (source.table.index source.index) : Except PlanError Unit) = .error e
    rw [unknown]
    rfl
  refine Planner.ends_error_bind (Planner.ends_error_bind ?_ rfl) rfl
  rw [List.map_singleton, check]
  exact Planner.ends_ofExcept

theorem Extendable.ends_extendProbe_of_unknown [ParamAllocator] {e : PlanError} (h : Extendable existing)
    (unknown : source.table.index source.index = .error e) :
    (extendProbe existing keys source).Ends (· = .error e) := by
  cases h with
  | none => exact ends_indexProbe_of_unknown unknown
  | @intersect i params merges inhabited shared =>
    change (extendIntersect params merges keys source).Ends _
    unfold extendIntersect
    rw [if_neg (by simpa using shared)]
    refine (Planner.succeeds_report _).ends_bind fun _ _ => ?_
    exact Planner.ends_error_bind (ends_indexProbe_of_unknown unknown) rfl
  | merge probe known =>
    cases probe
    refine Planner.succeeds_freshGroup.ends_bind fun params _ => ?_
    refine (Planner.succeeds_report _).ends_bind fun _ _ => ?_
    exact Planner.ends_error_bind (ends_indexProbe_of_unknown unknown) rfl

/-! ## What is returned -/

theorem grouped_of_kind_ne (other : p.kind ≠ .ixIntersect) : p.Grouped := by
  intro params op
  refine absurd ?_ other
  rw [kind, op]
  rfl

theorem ExtendedProbe.grouped_iff (h : ExtendedProbe source keys existing p) :
    p.Grouped ↔ ∀ x ∈ existing, x.Grouped := by
  cases h with
  | first probe =>
    cases probe
    exact iff_of_true (grouped_of_kind_ne nofun) nofun
  | @grown i j params merges added inhabited shared probe =>
    have old : (∀ x ∈ some (node i (.ixIntersect params) merges), x.Grouped) ↔
        ∀ x ∈ merges, ∃ source keys, SearchMerge (some params) source keys x := by
      simp [Grouped]
    have new : (node j (.ixIntersect params) (merges ++ [added])).Grouped ↔
        ∀ x ∈ merges ++ [added], ∃ source keys, SearchMerge (some params) source keys x := by
      simp [Grouped]
    rw [old, new, List.forall_mem_append, List.forall_mem_singleton]
    exact and_iff_left ⟨source, keys, probe⟩
  | @promoted j params oldSource oldKeys lone again added old rebuilt probe =>
    refine iff_of_true ?_ ?_
    · intro params' op x hx
      cases op
      rcases List.mem_pair.1 hx with rfl | rfl
      · exact ⟨_, _, rebuilt⟩
      · exact ⟨_, _, probe⟩
    · rintro x ⟨⟩
      cases old
      exact grouped_of_kind_ne nofun

/-- What extends a row id source is an intersection. -/
theorem ExtendedProbe.kind_eq {old : Plan} (h : ExtendedProbe source keys (some old) p) :
    p.kind = .ixIntersect := by
  cases h with
  | grown => rfl
  | promoted => rfl

/-! ## The outcome -/

/-- What adding a search may end with. -/
inductive Addition (source : IndexSource) (keys : Plan) (existing : Option Plan) :
    Except PlanError Plan → Prop
  | extended {p : Plan} {index : Index} (extendable : Extendable existing)
      (known : source.table.index source.index = .ok index)
      (probe : ExtendedProbe source keys existing p) : Addition source keys existing (.ok p)
  | unknown (extendable : Extendable existing) (unknown : source.table.index? source.index = none) :
      Addition source keys existing (.error (.unknownIndex source.index source.table.name))
  | refused {fault : ProbeFault} (refused : Refused existing fault) :
      Addition source keys existing (.error (.malformedProbe source.table.name fault))

theorem ends_extendProbe [ParamAllocator] (checked : ∀ x ∈ existing, x.Checked) :
    (extendProbe existing keys source).Ends (Addition source keys existing) := by
  intro w
  rcases extendable_or_refused checked with extendable | ⟨fault, refused⟩
  · cases found : source.table.index? source.index with
    | some index =>
      have known : source.table.index source.index = .ok index := by simp only [Table.index, found]
      obtain ⟨p, v, returned⟩ : ∃ p v, (extendProbe existing keys source).Returns w p v :=
        succeeds_extendProbe known extendable w
      rw [returned]
      exact .extended extendable known (returns_extendProbe returned).1
    | none =>
      have unknown : source.table.index source.index =
          .error (.unknownIndex source.index source.table.name) := by
        simp only [Table.index, found]
      have result : ((extendProbe existing keys source).outcome w).1 = .error _ :=
        extendable.ends_extendProbe_of_unknown unknown w
      rw [result]
      exact .unknown extendable found
  · have failed : (extendProbe existing keys source).outcome w = (.error _, w) :=
      fails_extendProbe_of_refused refused w
    rw [failed]
    exact .refused refused

namespace Addition

variable {result : Except PlanError Plan}

theorem eq_malformedProbe_iff (h : Addition source keys existing result) :
    result = .error (.malformedProbe source.table.name fault) ↔ Refused existing fault := by
  cases h with
  | extended extendable => exact iff_of_false nofun extendable.not_refused
  | unknown extendable => exact iff_of_false nofun extendable.not_refused
  | refused refused =>
    refine ⟨fun same => ?_, fun refused' => ?_⟩
    · cases same
      exact refused
    · rw [refused.fault_unique refused']

theorem exists_eq_ok_iff (h : Addition source keys existing result) :
    (∃ p, result = .ok p) ↔
      Extendable existing ∧ ∃ index, source.table.index source.index = .ok index := by
  have failed (e : PlanError) : ¬∃ p : Plan, Except.error e = .ok p := by
    rintro ⟨p, ⟨⟩⟩
  cases h with
  | extended extendable known => exact iff_of_true ⟨_, rfl⟩ ⟨extendable, _, known⟩
  | unknown extendable unknown =>
    refine iff_of_false (failed _) ?_
    rintro ⟨-, index, known⟩
    simp only [Table.index, unknown] at known
    cases known
  | refused refused =>
    refine iff_of_false (failed _) ?_
    rintro ⟨extendable, -⟩
    exact extendable.not_refused refused

end Addition

/-! ## Pairs in groups -/

def pairsGroupParams : GroupParams := ⟨.ofNat 1, .ofNat 2⟩

/-- How pairs are read through an index on their first column. -/
def pairsSource : IndexSource := ⟨(TableScan.ofPairs 0 [.onPairs 1 [0]]).table, .ofNat 1, .ofNat 0⟩

/-- A merge of a search for pairs. The merge carries the parameters of the group. -/
def pairsSearchMerge (i : NodeId) (searchParams? : Option GroupParams) : Plan :=
  .node (i + 1) (.ixMerge (some pairsGroupParams) (.ofNat i))
    [.node i (.ixSearch pairsSource true false searchParams?) [morePairs]]

/-- A merge that carries the parameters of the group but reads pairs, not a search. -/
def unsearchedMerge : Plan := .node 4 (.ixMerge (some pairsGroupParams) (.ofNat 4)) [morePairs]

/-- An intersection of `first` and another merge. -/
def pairsIntersect (first : Plan) : Plan :=
  .node 8 (.ixIntersect pairsGroupParams) [first, pairsSearchMerge 6 (some pairsGroupParams)]

/-- Whatever its first merge reads, a search is added to the intersection, and the result is no group if
this is not a search with the parameters. -/
theorem exists_not_grouped_of_loose {first : Plan} (shared : first.carries pairsGroupParams)
    (loose : ∀ source keys, ¬SearchMerge (some pairsGroupParams) source keys first) :
    ∃ w p v, (extendProbe (some (pairsIntersect first)) morePairs pairsSource).Returns w p v ∧
      p.kind = .ixIntersect ∧ ¬p.Grouped := by
  have extendable : Extendable (some (pairsIntersect first)) := by
    refine .intersect (List.cons_ne_nil _ _) fun x hx => ?_
    rcases List.mem_pair.1 hx with rfl | rfl
    · exact shared
    · rfl
  have known : pairsSource.table.index pairsSource.index = .ok (.onPairs 1 [0]) := rfl
  obtain ⟨p, v, returned⟩ : ∃ p v,
      (extendProbe (some (pairsIntersect first)) morePairs pairsSource).Returns
        { nextNode := 9, nextParam := .ofNat 7 } p v :=
    succeeds_extendProbe known extendable _
  have extended := (returns_extendProbe returned).1
  refine ⟨_, p, v, returned, extended.kind_eq, fun grouped => ?_⟩
  obtain ⟨source, keys, merge⟩ :=
    extended.grouped_iff.1 grouped _ rfl pairsGroupParams rfl first List.mem_cons_self
  exact loose source keys merge

/-- A row id source is refused with a fault exactly if it has this fault, and a search is added to it
exactly if it is one to which searches can be added and the index is known. Then the result is a group
exactly if the row id source was one, as a merge always is. -/
theorem grouped_iff_of_extendProbe [ParamAllocator] {existing : Option Plan} (checked : ∀ x ∈ existing, x.Checked)
    (keys : Plan) (source : IndexSource) (w : Workspace) :
    (∀ p, ((extendProbe existing keys source).outcome w).1 = .ok p →
      (p.Grouped ↔ ∀ x ∈ existing, x.Grouped)) ∧
    (∀ fault, ((extendProbe existing keys source).outcome w).1 =
      .error (.malformedProbe source.table.name fault) ↔ Refused existing fault) ∧
    ((∃ p, ((extendProbe existing keys source).outcome w).1 = .ok p) ↔
      Extendable existing ∧ ∃ index, source.table.index source.index = .ok index) := by
  have outcome : Addition source keys existing ((extendProbe existing keys source).outcome w).1 :=
    ends_extendProbe checked w
  refine ⟨fun p result => ?_, fun fault => outcome.eq_malformedProbe_iff, outcome.exists_eq_ok_iff⟩
  rw [result] at outcome
  cases outcome with
  | extended _ _ probe => exact probe.grouped_iff

/-- A search is added to a group of pairs, and the result is a group. A merge of its own that reads no
search is refused. -/
theorem grouped_of_pairsIntersect :
    (∃ p, ((extendProbe (some (pairsIntersect (pairsSearchMerge 4 (some pairsGroupParams)))) morePairs
        pairsSource).outcome {}).1 = .ok p ∧ p.Grouped) ∧
    ((extendProbe (some unsearchedMerge) morePairs pairsSource).outcome {}).1 =
      .error (.malformedProbe "pairs" .noSearch) := by
  constructor
  · have checked : ∀ x ∈ some (pairsIntersect (pairsSearchMerge 4 (some pairsGroupParams))), x.Checked := by
      rintro x ⟨⟩
      decide
    obtain ⟨grouped, -, added⟩ := grouped_iff_of_extendProbe checked morePairs pairsSource {}
    have shared : ∀ x ∈ (pairsIntersect (pairsSearchMerge 4 (some pairsGroupParams))).inputs,
        x.carries pairsGroupParams := by
      decide
    obtain ⟨p, result⟩ := added.2 ⟨.intersect (List.cons_ne_nil _ _) shared, .onPairs 1 [0], rfl⟩
    refine ⟨p, result, (grouped p result).2 ?_⟩
    rintro x ⟨⟩ params ⟨⟩ merge mem
    rcases List.mem_pair.1 mem with rfl | rfl
    · exact ⟨_, _, .intro⟩
    · exact ⟨_, _, .intro⟩
  · have checked : ∀ x ∈ some unsearchedMerge, x.Checked := by
      rintro x ⟨⟩
      decide
    obtain ⟨-, refused, -⟩ := grouped_iff_of_extendProbe checked morePairs pairsSource {}
    exact (refused .noSearch).2 (.noSearch nofun)

/-- A search is added also to an intersection of a merge that reads no search, or of a merge whose search
does not carry the parameters. The result is an intersection, but no group. -/
theorem not_grouped_of_loose_merge :
    ((pairsIntersect unsearchedMerge).Checked ∧
      ∃ w p v, (extendProbe (some (pairsIntersect unsearchedMerge)) morePairs pairsSource).Returns w p v ∧
        p.kind = .ixIntersect ∧ ¬p.Grouped) ∧
    (pairsIntersect (pairsSearchMerge 4 none)).Checked ∧
      ∃ w p v, (extendProbe (some (pairsIntersect (pairsSearchMerge 4 none))) morePairs pairsSource).Returns
          w p v ∧
        p.kind = .ixIntersect ∧ ¬p.Grouped := by
  have unsearched : ∀ source keys, ¬SearchMerge (some pairsGroupParams) source keys unsearchedMerge := by
    rintro source keys ⟨⟩
  have loose : ∀ source keys, ¬SearchMerge (some pairsGroupParams) source keys (pairsSearchMerge 4 none) := by
    rintro source keys ⟨⟩
  exact ⟨⟨by decide, exists_not_grouped_of_loose rfl unsearched⟩,
    by decide, exists_not_grouped_of_loose rfl loose⟩

end QueryPlan.Plan
