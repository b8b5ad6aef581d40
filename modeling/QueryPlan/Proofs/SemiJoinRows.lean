import QueryPlan.Proofs.IndexedRows

/-!
# The rows of a rewritten semijoin

A semijoin returns the rows of its left side that join with the right side on all join keys. The
scan that replaces it keeps the row ids its former probe selected and the rows its residual inputs
let pass, so it returns those that join on the keys the index covers (`Runtime.rows_of_rewrites`).
These are at least the rows of the semijoin, in the same order, and exactly those rows if the index
covers every join key.
-/
namespace QueryPlan

/-- What the semijoin compares. -/
def ScanSemiJoin.condition (m : ScanSemiJoin) : JoinCondition :=
  ⟨m.lhsKeys, m.rhsKeys, m.scan.rowType, m.rhs.rowType⟩

/-- The rule for bare scans with its default options. -/
def scanRule : SemiJoinRule := ⟨.scan, {}⟩

namespace Runtime

variable {α : Type} [DecidableEq α] (rt : Runtime α)

/-- The rows of the left side that agree with some row of the right side on the given join keys. -/
def joined (m : ScanSemiJoin) (positions : List Nat) : List (Row α) :=
  (rt.rows m.lhs).filter (rt.joins m.condition positions (rt.rows m.rhs))

theorem rows_plan (m : ScanSemiJoin) : rt.rows m.plan = rt.joined m (List.range m.lhsKeys.length) := by
  simp [ScanSemiJoin.plan, rows_node, operate, joined, ScanSemiJoin.condition, m.rowType_lhs]

variable {m : ScanSemiJoin} {few all : List Nat}

theorem joins_of_subset {on : JoinCondition} {rs : List (Row α)} {l : Row α} (sub : few ⊆ all)
    (h : rt.joins on all rs l = true) : rt.joins on few rs l = true := by
  obtain ⟨r, mem, agree⟩ := List.any_eq_true.1 h
  exact List.any_eq_true.2 ⟨r, mem, List.all_eq_true.2 fun i hi => List.all_eq_true.1 agree i (sub hi)⟩

/-- Comparing fewer join keys loses no row. -/
theorem joined_sublist (sub : few ⊆ all) : (rt.joined m all).Sublist (rt.joined m few) :=
  List.monotone_filter_right _ fun _ h => rt.joins_of_subset sub h

theorem joined_eq_iff (sub : few ⊆ all) :
    rt.joined m few = rt.joined m all ↔ ∀ l ∈ rt.rows m.lhs,
      rt.joins m.condition few (rt.rows m.rhs) l → rt.joins m.condition all (rt.rows m.rhs) l := by
  constructor
  · intro same l mem h
    have kept : l ∈ rt.joined m all := same ▸ List.mem_filter.2 ⟨mem, h⟩
    exact (List.mem_filter.1 kept).2
  · intro h
    refine List.filter_congr fun l mem => Bool.eq_iff_iff.2 ⟨h l mem, rt.joins_of_subset sub⟩

/-! ## The row ids a probe selects -/

variable {source : IndexSource} {keys p : Plan} {id : Nat}

theorem selects_searchMerge {params : Option GroupParams} (h : Plan.SearchMerge params source keys p) :
    rt.Selects p id ↔ ∃ row, (id, row) ∈ rt.found source (rt.rows keys) := by
  cases h
  rw [selects_ixMerge, selects_ixSearch]

/-- An added probe narrows down what the row id source selects to the rows that are found for its
search keys. -/
theorem selects_extendedProbe {existing : Option Plan} (h : Plan.ExtendedProbe source keys existing p) :
    rt.Selects p id ↔
      (∀ q ∈ existing, rt.Selects q id) ∧ ∃ row, (id, row) ∈ rt.found source (rt.rows keys) := by
  cases h with
  | first probe => simp [rt.selects_searchMerge probe]
  | grown inhabited shared probe =>
    rw [rt.selects_ixIntersect (by simp)]
    simp only [List.forall_mem_append, List.forall_mem_singleton, Option.mem_some_iff, forall_eq',
      rt.selects_ixIntersect inhabited, rt.selects_searchMerge probe]
  | promoted old rebuilt probe =>
    rw [rt.selects_ixIntersect (by simp)]
    simp only [List.forall_mem_cons, List.not_mem_nil, IsEmpty.forall_iff, implies_true, and_true,
      Option.mem_some_iff, forall_eq', rt.selects_searchMerge old, rt.selects_searchMerge rebuilt,
      rt.selects_searchMerge probe]

/-- A scan with an added probe reads those of the rows read before that are found for the search
keys. -/
theorem read_extended {s : TableScan} {index : IndexId} {inputs : List Plan}
    (h : Plan.ExtendedProbe ⟨s.table, index, s.connection⟩ keys (Plan.probe? inputs) p) :
    rt.read s (p :: Plan.residual inputs) =
      (rt.read s inputs).filter fun t => t ∈ rt.found ⟨s.table, index, s.connection⟩ (rt.rows keys) := by
  have probe : Plan.probe? (p :: Plan.residual inputs) = some p := by
    simp [Plan.probe?, Option.filter, h.isProbe]
  have residual : Plan.residual (p :: Plan.residual inputs) = Plan.residual inputs := by
    simp [Plan.residual.eq_1 (p :: Plan.residual inputs), probe]
  have narrowed : ∀ t ∈ rt.stored s.connection s.table, rt.Selects p t.1 ↔
      (∀ q, Plan.probe? inputs = some q → rt.Selects q t.1) ∧
        t ∈ rt.found ⟨s.table, index, s.connection⟩ (rt.rows keys) := by
    intro t mem
    rw [rt.selects_extendedProbe h]
    refine and_congr_right fun _ => ?_
    constructor
    · intro some
      obtain ⟨row, found⟩ := some
      have same : t = (t.1, row) := rt.eq_of_mem_stored mem (List.mem_filter.1 found).1 rfl
      rw [same]
      exact found
    · intro found
      exact ⟨t.2, found⟩
  rw [read, read, List.filter_filter, probe, residual]
  refine List.filter_congr fun t mem => ?_
  rw [Bool.eq_iff_iff]
  simp only [Bool.and_eq_true, Option.all_eq_true, decide_eq_true_eq, Option.some.injEq, forall_eq',
    narrowed t mem]
  tauto

/-! ## What a rewriting returns -/

section

variable {r : SemiJoinRule} {c : Candidate} {q : Plan}

/-- The stored rows found for the search keys are those from which the scan makes rows that join on
the keys assigned to the index. -/
theorem mem_found_iff_joins {joinCols : List ColumnId} {searchKeys : List SearchKey}
    (columns : m.scan.joinColumns m.lhsKeys = .ok joinCols)
    (assigned : c.assignment = .ofKeys c.index.keys joinCols)
    (keyed : c.assignment.mapM (SearchKey.ofJoinKey m.lhsKeys m.rhsKeys m.scan.rowType m.rhs.rowType) =
      .ok searchKeys)
    (searched : SearchKey.KeyPlan searchKeys m.rhs keys)
    (named : m.scan.table.index? c.index.id = some c.index) (bound : c.size ≤ 65536) {t : Nat × Row α} :
    t ∈ rt.found (m.source c.index) (rt.rows keys) ↔
      t ∈ rt.stored m.scan.connection m.scan.table ∧
        rt.joins m.condition c.assignment (rt.rows m.rhs) (m.scan.output t.2) = true := by
  have each := mapM_eq_ok_iff.1 keyed
  have length : searchKeys.length = c.assignment.length := each.length_eq.symm
  have indexed : (m.source c.index).keys = c.index.keys := by
    simp [IndexSource.keys, ScanSemiJoin.source, named]
  have covered : List.Forall₂
      (fun i col => ∃ key, m.lhsKeys[i]? = some key ∧ m.scan.column? key.toNat = some col)
      c.assignment (c.index.keys.take c.assignment.length) := by
    rw [assigned]
    exact (KeyAssignment.forall₂_ofKeys _ _).imp fun _ _ => TableScan.exists_key_of_joinColumns columns
  have agree (row : Row α) := rt.all_agree_output covered each t.2 row
  simp only [found, List.mem_filter, List.any_eq_true, decide_eq_true_eq, indexed, joins]
  refine and_congr_right fun _ => ?_
  constructor
  · rintro ⟨key, listed, eq⟩
    obtain ⟨row, mem, present, rfl⟩ := (rt.mem_rows_keyPlan searched (length ▸ bound)).1 listed
    rw [List.length_map, length] at eq
    exact ⟨row, mem, (agree row).2 ⟨present, eq⟩⟩
  · rintro ⟨row, mem, matched⟩
    obtain ⟨present, eq⟩ := (agree row).1 matched
    refine ⟨_, (rt.mem_rows_keyPlan searched (length ▸ bound)).2 ⟨row, mem, present, rfl⟩, ?_⟩
    rw [List.length_map, length]
    exact eq

/-- A rewriting returns the rows of the left side that join on the keys assigned to the chosen
index. -/
theorem rows_of_rewrites (h : r.Rewrites m c q) (named : m.scan.table.index? c.index.id = some c.index)
    (bound : c.size ≤ 65536) : rt.rows q = rt.joined m c.assignment := by
  obtain ⟨columns, choice, keyed, searched, probed, -⟩ := h
  obtain ⟨-, assigned⟩ := Selection.exists_of_choice choice
  rw [rows_tableScan, rt.read_extended probed, joined, ScanSemiJoin.lhs, rows_tableScan, List.filter_map]
  refine congrArg _ (List.filter_congr fun t mem => ?_)
  have stored : t ∈ rt.stored m.scan.connection m.scan.table := (List.mem_filter.1 mem).1
  rw [Bool.eq_iff_iff, decide_eq_true_eq]
  exact (rt.mem_found_iff_joins columns assigned keyed searched named bound).trans (and_iff_right stored)

end

/-- Two rows on the left have the first value of a row on the right, and one of them also has the
second. -/
def pairs : Runtime Nat := .ofContents fun t =>
  if t.id = .ofNat 0 then [[some 1, some 2], [some 1, some 3], [none, some 2]]
  else [[some 1, some 2], [none, some 3]]

/-- The plan that a rule returns for a semijoin returns, in row id order, the rows of the left side
that join on the keys assigned to the chosen index, provided that the id of this index names it in
its table and that its key columns can be numbered. So no row of the semijoin is lost, and none is
added if every join key is assigned. -/
theorem rows_of_attempt [ParamAllocator] {r : SemiJoinRule} {p q : Plan}
    (h : (r.toRule.attempt p).Yields (some q)) :
    ∃ m c, p = m.plan ∧ r.candidate? m = some c ∧
      (m.scan.table.index? c.index.id = some c.index → c.index.keys.length ≤ 65536 →
        ∀ (α : Type) [DecidableEq α] (rt : Runtime α),
          rt.rows q = rt.joined m c.assignment ∧ (rt.rows p).Sublist (rt.rows q) ∧
            (List.range m.lhsKeys.length ⊆ c.assignment → rt.rows q = rt.rows p)) := by
  obtain ⟨m, c, rfl, rewrites⟩ := SemiJoinRule.rewrites_of_attempt h
  refine ⟨m, c, rfl, rewrites.chosen, fun named bound α _ rt => ?_⟩
  have rows := rt.rows_of_rewrites rewrites named (Nat.le_trans rewrites.size_le bound)
  rw [rows, rows_plan]
  refine ⟨rfl, rt.joined_sublist rewrites.assignment_subset, fun covered => ?_⟩
  exact (rt.joined_eq_iff rewrites.assignment_subset).2 fun l _ => rt.joins_of_subset covered

/-- Through an index on both join keys in the other order, the rows of the semijoin are returned. -/
theorem rows_of_attempt_covered :
    ∃ q, (scanRule.toRule.attempt (ScanSemiJoin.ofPairs [.onPairs 1 [1, 0]] [0, 1]).plan).Yields (some q) ∧
      pairs.rows q = pairs.rows (ScanSemiJoin.ofPairs [.onPairs 1 [1, 0]] [0, 1]).plan := by
  have attempt : ∃ q, (scanRule.toRule.attempt
      (ScanSemiJoin.ofPairs [.onPairs 1 [1, 0]] [0, 1]).plan).Yields (some q) :=
    ⟨_, { nextNode := 3 }, _, rfl⟩
  obtain ⟨q, hq⟩ := attempt
  obtain ⟨m, c, plan, chosen, rows⟩ := rows_of_attempt hq
  obtain rfl := ScanSemiJoin.plan_injective plan
  obtain rfl : c = ⟨.onPairs 1 [1, 0], [1, 0]⟩ := Option.some.inj (chosen.symm.trans rfl)
  exact ⟨q, hq, (rows rfl (by decide) Nat pairs).2.2 (by decide)⟩

/-- If the id of the chosen index names another index of the table, rows of the semijoin are lost. -/
theorem rows_lost_of_shared_id :
    ∃ q, (scanRule.toRule.attempt
        (ScanSemiJoin.ofPairs [.onPairs 1 [1], .onPairs 1 [0]] [0]).plan).Yields (some q) ∧
      pairs.rows (ScanSemiJoin.ofPairs [.onPairs 1 [1], .onPairs 1 [0]] [0]).plan =
        [[some 1, some 2], [some 1, some 3]] ∧
      pairs.rows q = [] :=
  ⟨_, ⟨{ nextNode := 3 }, _, rfl⟩, by decide, by decide⟩

/-- A rewriting is equivalent to its semijoin exactly if a row on the left that joins on the keys
assigned to the index always joins on all of them. Join keys that the index does not cover are not
compared any more. -/
theorem rows_eq_iff_of_attempt [ParamAllocator] {r : SemiJoinRule} {p q : Plan}
    (h : (r.toRule.attempt p).Yields (some q)) :
    ∃ m c, p = m.plan ∧ r.candidate? m = some c ∧
      (m.scan.table.index? c.index.id = some c.index → c.size ≤ 65536 →
        ∀ (α : Type) [DecidableEq α] (rt : Runtime α),
          rt.rows q = rt.rows p ↔
            ∀ l ∈ rt.rows m.lhs, rt.joins m.condition c.assignment (rt.rows m.rhs) l →
              rt.joins m.condition (List.range m.lhsKeys.length) (rt.rows m.rhs) l) := by
  obtain ⟨m, c, rfl, rewrites⟩ := SemiJoinRule.rewrites_of_attempt h
  refine ⟨m, c, rfl, rewrites.chosen, fun named bound α _ rt => ?_⟩
  rw [rt.rows_of_rewrites rewrites named bound, rows_plan]
  exact rt.joined_eq_iff rewrites.assignment_subset

/-- Through an index on the first of two join keys, a row that joins on the first key only is
returned as well. -/
theorem rows_added_of_partial_index :
    ∃ q, (scanRule.toRule.attempt (ScanSemiJoin.ofPairs [.onPairs 1 [0]] [0, 1]).plan).Yields (some q) ∧
      pairs.rows (ScanSemiJoin.ofPairs [.onPairs 1 [0]] [0, 1]).plan = [[some 1, some 2]] ∧
      pairs.rows q = [[some 1, some 2], [some 1, some 3]] :=
  ⟨_, ⟨{ nextNode := 3 }, _, rfl⟩, by decide, by decide⟩

/-- The partial index is good enough for a join on its own column. -/
theorem rows_eq_of_attempt_first_key :
    ∃ q, (scanRule.toRule.attempt (ScanSemiJoin.ofPairs [.onPairs 1 [0]] [0]).plan).Yields (some q) ∧
      pairs.rows q = pairs.rows (ScanSemiJoin.ofPairs [.onPairs 1 [0]] [0]).plan := by
  have attempt : ∃ q, (scanRule.toRule.attempt
      (ScanSemiJoin.ofPairs [.onPairs 1 [0]] [0]).plan).Yields (some q) :=
    ⟨_, { nextNode := 3 }, _, rfl⟩
  obtain ⟨q, hq⟩ := attempt
  obtain ⟨m, c, plan, chosen, rows⟩ := rows_eq_iff_of_attempt hq
  obtain rfl := ScanSemiJoin.plan_injective plan
  obtain rfl : c = ⟨.onPairs 1 [0], [0]⟩ := Option.some.inj (chosen.symm.trans rfl)
  exact ⟨q, hq, (rows rfl (by decide) Nat pairs).2 (by decide)⟩

end Runtime

end QueryPlan
