import QueryPlan.Proofs.Checks
import QueryPlan.Proofs.Rewriting

/-!
# What a rule ends with

A rule engages with a semijoin of a scan that has its shape, unless it leaves the scan to another rule
or may not intersect (`SemiJoinRule.Engages`). It declines every other plan. Where it engages and the
plan is checked, it fails for an index key that the table lacks or for a flawed probe
(`ScanSemiJoin.Fails`), declines if no index leads with a left key, and rewrites the semijoin otherwise.
None of this depends on the workspace, and there is nothing else that it may end with.
-/
namespace QueryPlan

/-! ## Key columns of the table -/

namespace Table

/-- The first key column that the table lacks, in the first unclustered index that has such a key
column. -/
def firstMissing? (t : Table) : Option ColumnId :=
  (t.unclustered.flatMap Index.keys).find? (t.columns.length ≤ ·.toNat)

theorem firstMissing?_eq_none_iff {t : Table} :
    t.firstMissing? = none ↔ ∀ index ∈ t.unclustered, ∀ c ∈ index.keys, c.toNat < t.columns.length := by
  rw [firstMissing?, find?_le_eq_none_iff]
  simp only [List.mem_flatMap]
  exact ⟨fun h index mem c hc => h c ⟨index, mem, hc⟩, fun h c ⟨index, mem, hc⟩ => h index mem c hc⟩

private theorem forM_checkIndex_eq (t : Table) (indexes : List Index) :
    indexes.forM t.checkIndex =
      match (indexes.flatMap Index.keys).find? (t.columns.length ≤ ·.toNat) with
      | some c => .error (t.missing c)
      | none => .ok () := by
  induction indexes with
  | nil => rfl
  | cons index rest ih =>
    rw [List.forM, List.flatMap_cons, List.find?_append, checkIndex]
    cases index.keys.find? (t.columns.length ≤ ·.toNat) with
    | some c => rfl
    | none => exact ih

/-- Of all the key columns that are missing, the checks report the first one. -/
theorem liftColumn_checkIndex_eq (t : Table) :
    PlanError.liftColumn (t.unclustered.forM t.checkIndex) =
      match t.firstMissing? with
      | some c => .error (.missingColumn (t.missing c))
      | none => .ok () := by
  rw [forM_checkIndex_eq, firstMissing?]
  cases (t.unclustered.flatMap Index.keys).find? (t.columns.length ≤ ·.toNat) <;> rfl

end Table

/-! ## Ranges -/

namespace TableScan

theorem exists_column {s : TableScan} {pos : Nat} (h : pos < s.rowType.length) :
    ∃ c, s.column? pos = some c := by
  unfold rowType at h
  unfold column?
  cases projected : s.projected with
  | none =>
    simp only [projected] at h ⊢
    exact ⟨_, if_pos h⟩
  | some cols =>
    simp only [projected] at h ⊢
    have inside : pos < cols.length := Nat.lt_of_lt_of_le h (List.length_filterMap_le _ _)
    exact ⟨cols[pos], List.getElem?_eq_getElem inside⟩

theorem exists_joinColumns {s : TableScan} {lhsKeys : ColumnList}
    (h : ∀ k ∈ lhsKeys, k.toNat < s.rowType.length) :
    ∃ joinCols, s.joinColumns lhsKeys = .ok joinCols := by
  refine exists_mapM_eq_ok fun k hk => ?_
  obtain ⟨c, column⟩ := exists_column (h k hk)
  exact ⟨c, by rw [column]⟩

/-- The join columns are the table columns that the left keys refer to. -/
theorem mem_joinColumns_iff {s : TableScan} {lhsKeys : ColumnList} {joinCols : List ColumnId}
    (h : s.joinColumns lhsKeys = .ok joinCols) {c : ColumnId} :
    c ∈ joinCols ↔ ∃ key ∈ lhsKeys, s.column? key.toNat = some c := by
  constructor
  · exact exists_left_of_forall₂ (forall₂_of_joinColumns h)
  · rintro ⟨key, mem, column⟩
    obtain ⟨d, found, column'⟩ := exists_right_of_forall₂ (forall₂_of_joinColumns h) mem
    obtain rfl : c = d := Option.some.inj (column.symm.trans column')
    exact found

end TableScan

namespace SearchKey

/-- Every join key has a search key if the keys are fields of the two sides. -/
theorem exists_ofJoinKey {lhsKeys rhsKeys : ColumnList} {lhs rhs : RowType}
    (length : lhsKeys.length = rhsKeys.length) (left : ∀ k ∈ lhsKeys, k.toNat < lhs.length)
    (right : ∀ k ∈ rhsKeys, k.toNat < rhs.length) {i : Nat} (h : i < lhsKeys.length) :
    ∃ k, ofJoinKey lhsKeys rhsKeys lhs rhs i = .ok k := by
  have h' : i < rhsKeys.length := by omega
  have l := left _ (List.getElem_mem h)
  have r := right _ (List.getElem_mem h')
  exact ⟨_, ofJoinKey_eq_ok_iff.2 ⟨_, _, _, _, List.getElem?_eq_getElem h, List.getElem?_eq_getElem h',
    List.getElem?_eq_getElem l, List.getElem?_eq_getElem r, rfl⟩⟩

end SearchKey

/-! ## Conditions -/

namespace ScanSemiJoin

/-- The leading key column of the index is one that a left key refers to. -/
def Leads (m : ScanSemiJoin) (index : Index) : Prop :=
  ∃ key ∈ index.keys.head?, ∃ k ∈ m.lhsKeys, m.scan.column? k.toNat = some key

/-- The unclustered indexes of the scanned table have keys on its columns only, and one of them leads
with a left key. -/
structure Indexed (m : ScanSemiJoin) : Prop where
  inside : m.scan.table.firstMissing? = none
  leading : ∃ index ∈ m.scan.table.unclustered, m.Leads index

/-- The errors with which a rule fails on the semijoin. -/
inductive Fails (m : ScanSemiJoin) : PlanError → Prop
  | missingColumn {key : ColumnId} (first : m.scan.table.firstMissing? = some key) :
      Fails m (.missingColumn (m.scan.table.missing key))
  | malformedProbe {fault : ProbeFault} (indexed : m.Indexed)
      (flawed : Plan.Flawed (Plan.probe? m.inputs) fault) :
      Fails m (.malformedProbe m.scan.table.name fault)

/-- What a rule that engages with the semijoin may end with. -/
inductive Verdict (m : ScanSemiJoin) : Except PlanError (Option Plan) → Prop
  | failed {e : PlanError} (fails : m.Fails e) : Verdict m (.error e)
  | declined (inside : m.scan.table.firstMissing? = none)
      (unled : ∀ index ∈ m.scan.table.unclustered, ¬m.Leads index) : Verdict m (.ok none)
  | rewritten {q : Plan} (indexed : m.Indexed) (extendable : Plan.Extendable (Plan.probe? m.inputs)) :
      Verdict m (.ok (some q))

variable {m : ScanSemiJoin}

theorem Indexed.not_unled (h : m.Indexed) : ¬∀ index ∈ m.scan.table.unclustered, ¬m.Leads index := by
  intro unled
  obtain ⟨index, mem, leads⟩ := h.leading
  exact unled index mem leads

namespace Fails

variable {e e' : PlanError}

theorem unique (h : m.Fails e) (h' : m.Fails e') : e = e' := by
  cases h with
  | missingColumn first =>
    cases h' with
    | missingColumn first' => rw [Option.some.inj (first.symm.trans first')]
    | malformedProbe indexed _ => exact nomatch indexed.inside.symm.trans first
  | malformedProbe indexed flawed =>
    cases h' with
    | missingColumn first => exact nomatch indexed.inside.symm.trans first
    | malformedProbe _ flawed' => rw [flawed.fault_unique flawed']

theorem not_unled (h : m.Fails e) (inside : m.scan.table.firstMissing? = none) :
    ¬∀ index ∈ m.scan.table.unclustered, ¬m.Leads index := by
  cases h with
  | missingColumn first => exact nomatch inside.symm.trans first
  | malformedProbe indexed _ => exact indexed.not_unled

theorem exists_flawed (h : m.Fails e) (indexed : m.Indexed) :
    ∃ fault, Plan.Flawed (Plan.probe? m.inputs) fault := by
  cases h with
  | missingColumn first => exact nomatch indexed.inside.symm.trans first
  | malformedProbe _ flawed => exact ⟨_, flawed⟩

end Fails

namespace Verdict

variable {result : Except PlanError (Option Plan)}

theorem eq_error_iff (h : m.Verdict result) {e : PlanError} : result = .error e ↔ m.Fails e := by
  cases h with
  | failed fails => exact ⟨fun eq => Except.error.inj eq ▸ fails, fun fails' => by rw [fails.unique fails']⟩
  | declined inside unled => exact iff_of_false nofun fun fails => fails.not_unled inside unled
  | rewritten indexed extendable =>
    refine iff_of_false nofun fun fails => ?_
    obtain ⟨fault, flawed⟩ := fails.exists_flawed indexed
    exact extendable.not_flawed flawed

theorem eq_none_iff (h : m.Verdict result) : result = .ok none ↔
    m.scan.table.firstMissing? = none ∧ ∀ index ∈ m.scan.table.unclustered, ¬m.Leads index := by
  cases h with
  | failed fails => exact iff_of_false nofun fun ⟨inside, unled⟩ => fails.not_unled inside unled
  | declined inside unled => exact iff_of_true rfl ⟨inside, unled⟩
  | rewritten indexed _ => exact iff_of_false nofun fun ⟨_, unled⟩ => indexed.not_unled unled

theorem exists_eq_some_iff (h : m.Verdict result) : (∃ q, result = .ok (some q)) ↔
    m.Indexed ∧ ∀ fault, ¬Plan.Flawed (Plan.probe? m.inputs) fault := by
  cases h with
  | failed fails =>
    refine iff_of_false nofun fun ⟨indexed, sound⟩ => ?_
    obtain ⟨fault, flawed⟩ := fails.exists_flawed indexed
    exact sound fault flawed
  | declined _ unled => exact iff_of_false nofun fun ⟨indexed, _⟩ => indexed.not_unled unled
  | rewritten indexed extendable => exact iff_of_true ⟨_, rfl⟩ ⟨indexed, fun _ => extendable.not_flawed⟩

end Verdict

/-- No index is chosen exactly if none leads with a left key. -/
theorem choice_eq_none_iff {joinCols : List ColumnId} {earlyExit : Bool}
    (columns : m.scan.joinColumns m.lhsKeys = .ok joinCols) :
    (Selection.ofIndexes m.scan.table.unclustered joinCols earlyExit).choice = none ↔
      ∀ index ∈ m.scan.table.unclustered, ¬m.Leads index := by
  rw [Selection.choice_eq_none_iff]
  refine forall₂_congr fun index _ => ?_
  simp only [TableScan.mem_joinColumns_iff columns, Leads, not_exists, not_and]

theorem indexed_of_choice {joinCols : List ColumnId} {earlyExit : Bool} {c : Candidate}
    (inside : m.scan.table.firstMissing? = none) (columns : m.scan.joinColumns m.lhsKeys = .ok joinCols)
    (choice : (Selection.ofIndexes m.scan.table.unclustered joinCols earlyExit).choice = some c) :
    m.Indexed := by
  refine ⟨inside, ?_⟩
  by_contra unled
  simp only [not_exists, not_and] at unled
  exact nomatch choice.symm.trans ((choice_eq_none_iff columns).2 unled)

/-- The left keys of an accepted semijoin are fields of the scan. -/
theorem exists_joinColumns (accepted : m.plan.Accepted) :
    ∃ joinCols, m.scan.joinColumns m.lhsKeys = .ok joinCols := by
  obtain ⟨-, left, -⟩ := Operator.check_semiJoin_eq_ok_iff.1 accepted
  rw [m.rowType_lhs] at left
  exact TableScan.exists_joinColumns left

/-- There are search keys for the join keys that a choice assigns. -/
theorem exists_keys_of_choice {joinCols : List ColumnId} {earlyExit : Bool} {c : Candidate}
    (accepted : m.plan.Accepted) (columns : m.scan.joinColumns m.lhsKeys = .ok joinCols)
    (choice : (Selection.ofIndexes m.scan.table.unclustered joinCols earlyExit).choice = some c) :
    ∃ keys, c.assignment.mapM
      (SearchKey.ofJoinKey m.lhsKeys m.rhsKeys m.scan.rowType m.rhs.rowType) = .ok keys := by
  obtain ⟨length, left, right⟩ := Operator.check_semiJoin_eq_ok_iff.1 accepted
  rw [m.rowType_lhs] at left
  refine exists_mapM_eq_ok fun i hi => SearchKey.exists_ofJoinKey length left right ?_
  rw [(Selection.exists_of_choice choice).2] at hi
  rw [(TableScan.forall₂_of_joinColumns columns).length_eq]
  exact KeyAssignment.lt_length_of_mem_ofKeys hi

theorem indexed_ofPairs : (ofPairs [.onPairs 1 [0]] [0]).Indexed :=
  ⟨rfl, .onPairs 1 [0], by decide, .ofNat 0, rfl, .ofNat 0, by decide, rfl⟩

end ScanSemiJoin

namespace SemiJoinRule

open Plan ScanShape

/-- The rule takes up the semijoin: its pattern matches, it does not leave the scan to another rule, and
it need not intersect or may. -/
structure Engages (r : SemiJoinRule) (m : ScanSemiJoin) : Prop where
  matched : (r.shape.pattern.bind? m.plan).isSome
  undeferred : r.defers m.scan m.inputs = false
  enabled : r.shape = .scan ∨ r.options.intersect = true

/-! ## Plans that a rule engages with -/

/-- A matched row id source is either flawed or can be extended. -/
theorem extendable_or_flawed {r : SemiJoinRule} {s : TableScan} {inputs rest : List Plan}
    (binds : Binds r.shape inputs rest) (undeferred : r.defers s inputs = false)
    (checked : ∀ x ∈ inputs, x.Checked) :
    Extendable (probe? inputs) ∨ ∃ fault, Flawed (probe? inputs) fault := by
  obtain ⟨shape, options⟩ := r
  cases binds with
  | scan => exact .inl (probe?_eq_none_of_undeferred undeferred ▸ .none)
  | intersect kind =>
    rw [probe?_cons_of_kind (.inr kind)]
    exact extendable_or_flawed_of_ixIntersect (checked _ List.mem_cons_self).root kind
  | merge kind below searchKind =>
    rw [probe?_cons_of_kind (.inl kind)]
    exact extendable_or_flawed_of_ixMerge (checked _ List.mem_cons_self) kind below searchKind

theorem ends_throughIndex [ParamAllocator] {r : SemiJoinRule} {m : ScanSemiJoin} {rest : List Plan}
    (binds : Binds r.shape m.inputs rest) (undeferred : r.defers m.scan m.inputs = false)
    (enabled : r.shape = .scan ∨ r.options.intersect = true) (checked : m.plan.Checked) :
    (r.throughIndex m.lhsKeys m.rhsKeys m.scan m.inputs m.rhs rest.head?).Ends m.Verdict := by
  have checkedLeft := checked.input m.lhs_mem_inputs
  have sound := extendable_or_flawed binds undeferred fun x hx => checkedLeft.input hx
  obtain ⟨joinCols, columns⟩ := ScanSemiJoin.exists_joinColumns checked.root
  have old := existing_eq_probe? binds undeferred
  have allowed : ¬(r.shape ≠ .scan ∧ r.options.intersect = false) := by
    rintro ⟨longer, disabled⟩
    exact enabled.elim longer (by simp [disabled])
  unfold throughIndex
  rw [undeferred, if_neg Bool.false_ne_true, if_neg allowed, old, columns]
  refine (Planner.succeeds_ofExcept rfl).ends_bind fun existing looked => ?_
  obtain rfl := Except.ok.inj (Planner.yields_ofExcept.1 looked)
  refine (Planner.succeeds_ofExcept rfl).ends_bind fun joinCols' mapped => ?_
  obtain rfl := Except.ok.inj (Planner.yields_ofExcept.1 mapped)
  -- All indexes are checked before one is chosen, so whether a missing column is reported does not depend
  -- on the choice.
  rw [Table.liftColumn_checkIndex_eq]
  cases missing : m.scan.table.firstMissing? with
  | some key => exact Planner.ends_error_bind Planner.ends_ofExcept (.failed (.missingColumn missing))
  | none =>
  refine (Planner.succeeds_ofExcept rfl).ends_bind fun _ _ => ?_
  refine (succeeds_chooseIndex _ _ _).ends_bind fun c? choice => ?_
  have choice := (yields_chooseIndex choice).symm
  cases c? with
  | none =>
    have unled := (ScanSemiJoin.choice_eq_none_iff columns).1 choice
    exact (Planner.succeeds_report _).ends_bind fun _ _ => Planner.ends_pure.2 (.declined missing unled)
  | some c =>
  have indexed := ScanSemiJoin.indexed_of_choice missing columns choice
  obtain ⟨keys, keyed⟩ := ScanSemiJoin.exists_keys_of_choice checked.root columns choice
  have mem := (Selection.exists_of_choice choice).1
  obtain ⟨index, known⟩ := Table.exists_index_of_mem (List.mem_of_mem_filter mem)
  refine (Planner.succeeds_report _).ends_bind fun _ _ => ?_
  refine (SearchKey.succeeds_plan keyed).ends_bind fun keyPlan _ => ?_
  -- Only adding the search can still fail.
  rcases sound with extendable | ⟨fault, flawed⟩
  · refine (succeeds_extendProbe known extendable).ends_bind fun probe _ => ?_
    have accepted :
        (Operator.tableScan m.scan).check ((probe :: residual m.inputs).map rowType) = .ok () :=
      checkedLeft.root
    refine (succeeds_build accepted).ends_bind fun q _ => ?_
    exact Planner.ends_pure.2 (.rewritten indexed extendable)
  · exact Planner.ends_error_bind (ends_extendProbe_of_flawed flawed)
      (.failed (.malformedProbe indexed flawed))

/-- A checked plan that has the shape is a semijoin of two inputs. -/
theorem exists_eq_plan_of_bind? {shape : ScanShape} {p : Plan} (accepted : p.Accepted)
    (matched : (shape.pattern.bind? p).isSome) : ∃ m : ScanSemiJoin, p = m.plan := by
  obtain ⟨bound, hbound⟩ := Option.isSome_iff_exists.1 matched
  obtain ⟨kind, lhs, others, rest, inputs, scanKind, -, -⟩ := exists_of_bind? hbound
  have two : p.inputs.length = 2 := accepted.length_inputs (by rw [kind]; rfl)
  rw [inputs] at two
  obtain ⟨rhs, rfl⟩ := List.length_eq_one_iff.1 (Nat.succ.inj two)
  obtain ⟨i, op, xs⟩ := p
  obtain ⟨j, op', zs⟩ := lhs
  obtain rfl : xs = _ := inputs
  cases op with
  | semiJoin lhsKeys rhsKeys =>
    cases op' with
    | tableScan s => exact ⟨⟨i, lhsKeys, rhsKeys, j, s, zs, rhs⟩, rfl⟩
    | _ => cases scanKind
  | _ => cases kind

theorem attempt_eq_transform [ParamAllocator] {r : SemiJoinRule} {p : Plan} {bound : List Plan}
    (h : r.shape.pattern.bind? p = some bound) : r.toRule.attempt p = r.transform bound := by
  simp only [Rule.attempt, toRule, h]

theorem Engages.ends_attempt [ParamAllocator] {r : SemiJoinRule} {m : ScanSemiJoin} (engages : r.Engages m)
    (checked : m.plan.Checked) : (r.toRule.attempt m.plan).Ends m.Verdict := by
  obtain ⟨bound, matched⟩ := Option.isSome_iff_exists.1 engages.matched
  rw [attempt_eq_transform matched]
  obtain ⟨m', rest, same, binds, eq⟩ | ⟨other, -⟩ := transform_cases matched
  · obtain rfl := ScanSemiJoin.plan_injective same
    rw [eq]
    exact ends_throughIndex binds engages.undeferred engages.enabled checked
  · exact absurd rfl (other m)

theorem Engages.exists_rewritten [ParamAllocator] {r : SemiJoinRule} {m : ScanSemiJoin} (engages : r.Engages m)
    (checked : m.plan.Checked) (indexed : m.Indexed) (extendable : Extendable (probe? m.inputs))
    (w : Workspace) : ∃ q, ((r.toRule.attempt m.plan).outcome w).1 = .ok (some q) :=
  (engages.ends_attempt checked w).exists_eq_some_iff.2 ⟨indexed, fun _ => extendable.not_flawed⟩

/-! ## Plans that a rule declines -/

/-- A rule declines what it does not engage with, whether it is checked or not. -/
theorem ends_attempt_of_not_engages [ParamAllocator] {r : SemiJoinRule} {p : Plan}
    (idle : ¬∃ m : ScanSemiJoin, p = m.plan ∧ r.Engages m) :
    (r.toRule.attempt p).Ends (· = .ok none) := by
  cases matched : r.shape.pattern.bind? p with
  | none =>
    simp only [Rule.attempt, toRule, matched]
    exact Planner.ends_pure.2 rfl
  | some bound =>
  rw [attempt_eq_transform matched]
  obtain ⟨m, rest, rfl, -, eq⟩ | ⟨-, eq⟩ := transform_cases matched
  · have decline (e : Event) :
        (Planner.report e >>= fun _ => pure none : Planner (Option Plan)).Ends (· = .ok none) :=
      (Planner.succeeds_report e).ends_bind fun _ _ => Planner.ends_pure.2 rfl
    rw [eq]
    unfold throughIndex
    split
    · exact decline _
    next undeferred =>
    split
    · exact decline _
    next enabled =>
    refine absurd ⟨m, rfl, by simp [matched], by simpa using undeferred, ?_⟩ idle
    rwa [not_and_or, not_not, Bool.not_eq_false] at enabled
  · rw [eq]
    exact Planner.ends_pure.2 rfl

/-- What a rule ends with on a checked plan. A plan that it matches is a semijoin of a scan. The rule
fails exactly for the first key column that is missing and, if there is none and an index leads with a
left key, for a flawed probe. It declines exactly if it does not engage, or if no key column is missing
and no index leads with a left key. Otherwise it returns a plan. No assertion fails. -/
theorem outcome_attempt [ParamAllocator] (r : SemiJoinRule) {p : Plan} (checked : p.Checked) (w : Workspace) :
    ((r.shape.pattern.bind? p).isSome → ∃ m : ScanSemiJoin, p = m.plan) ∧
    (∀ e, ((r.toRule.attempt p).outcome w).1 = .error e ↔
      ∃ m : ScanSemiJoin, p = m.plan ∧ r.Engages m ∧ m.Fails e) ∧
    (((r.toRule.attempt p).outcome w).1 = .ok none ↔
      ∀ m : ScanSemiJoin, p = m.plan → r.Engages m →
        m.scan.table.firstMissing? = none ∧ ∀ index ∈ m.scan.table.unclustered, ¬m.Leads index) ∧
    ((∃ q, ((r.toRule.attempt p).outcome w).1 = .ok (some q)) ↔
      ∃ m : ScanSemiJoin, p = m.plan ∧ r.Engages m ∧ m.Indexed ∧
        ∀ fault, ¬Flawed (probe? m.inputs) fault) ∧
    ∀ cause, ((r.toRule.attempt p).outcome w).1 ≠ .error (.assertion cause) := by
  have matched : (r.shape.pattern.bind? p).isSome → ∃ m : ScanSemiJoin, p = m.plan :=
    exists_eq_plan_of_bind? checked.root
  by_cases engaged : ∃ m : ScanSemiJoin, p = m.plan ∧ r.Engages m
  · obtain ⟨m, rfl, engages⟩ := engaged
    have verdict := engages.ends_attempt checked w
    refine ⟨matched, fun e => verdict.eq_error_iff.trans ?_, verdict.eq_none_iff.trans ?_,
      verdict.exists_eq_some_iff.trans ?_, fun cause failed => ?_⟩
    · exact ⟨fun h => ⟨m, rfl, engages, h⟩, fun ⟨_, same, _, h⟩ => ScanSemiJoin.plan_injective same ▸ h⟩
    · exact ⟨fun h m' same _ => ScanSemiJoin.plan_injective same ▸ h, fun h => h m rfl engages⟩
    · exact ⟨fun h => ⟨m, rfl, engages, h⟩, fun ⟨_, same, _, h⟩ => ScanSemiJoin.plan_injective same ▸ h⟩
    · cases verdict.eq_error_iff.1 failed
  · have declined := ends_attempt_of_not_engages engaged w
    rw [declined]
    refine ⟨matched, fun e => iff_of_false nofun ?_, iff_of_true rfl ?_, iff_of_false nofun ?_, nofun⟩
    · exact fun ⟨m, same, engages, _⟩ => engaged ⟨m, same, engages⟩
    · exact fun m same engages => absurd ⟨m, same, engages⟩ engaged
    · exact fun ⟨m, same, engages, _⟩ => engaged ⟨m, same, engages⟩

/-- An index that is not chosen makes the rule fail if a key column of it is missing. Without it the
rule returns a plan. -/
theorem outcome_attempt_ofPairs :
    (∀ w, (((SemiJoinRule.mk .scan {}).toRule.attempt
        (ScanSemiJoin.ofPairs [.onPairs 1 [0], .onPairs 2 [1, 7, 8]] [0]).plan).outcome w).1 =
      .error (.missingColumn ⟨"pairs", .ofNat 7, 2⟩)) ∧
    ∀ w, ∃ q, (((SemiJoinRule.mk .scan {}).toRule.attempt
      (ScanSemiJoin.ofPairs [.onPairs 1 [0]] [0]).plan).outcome w).1 = .ok (some q) := by
  refine ⟨fun w => ?_, fun w => ?_⟩
  · obtain ⟨-, fails, -⟩ := outcome_attempt ⟨.scan, {}⟩
      (p := (ScanSemiJoin.ofPairs [.onPairs 1 [0], .onPairs 2 [1, 7, 8]] [0]).plan) (by decide) w
    exact (fails _).2 ⟨_, rfl, ⟨rfl, rfl, .inl rfl⟩, .missingColumn rfl⟩
  · obtain ⟨-, -, -, rewrites, -⟩ := outcome_attempt ⟨.scan, {}⟩
      (p := (ScanSemiJoin.ofPairs [.onPairs 1 [0]] [0]).plan) (by decide) w
    exact rewrites.2 ⟨_, rfl, ⟨rfl, rfl, .inl rfl⟩, ScanSemiJoin.indexed_ofPairs, nofun⟩

end SemiJoinRule

end QueryPlan
