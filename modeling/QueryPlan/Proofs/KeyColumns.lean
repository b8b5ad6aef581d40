import QueryPlan.Proofs.Rewriting

/-!
# The columns of search keys

The search keys of a rewriting have one column for each leading key column of the chosen index that a
join key stands for, in the order of the index. Each column is computed from the right field of its
join key alone and has the type of the index column, which the left field of the join key comes from
(`ScanSemiJoin.LinesUp`).
-/
namespace QueryPlan

/-! ## The types of the columns -/

namespace TableScan

variable {s : TableScan}

theorem exists_project_of_check {cols : ColumnList} (accepted : s.check = .ok ())
    (projected : s.projected = some cols) : ∃ fields, s.table.project cols = .ok fields := by
  unfold check at accepted
  simp only [projected] at accepted
  cases clustered : s.clustered.forM fun id => discard (s.table.index id) with
  | error e =>
    rw [clustered] at accepted
    cases accepted
  | ok =>
    rw [clustered] at accepted
    cases project : s.table.project cols with
    | error e =>
      rw [project] at accepted
      cases accepted
    | ok fields => exact ⟨fields, rfl⟩

/-- The fields of a scan of existing columns are those columns. -/
theorem forall₂_rowType {cols : ColumnList} (accepted : s.check = .ok ())
    (projected : s.projected = some cols) :
    List.Forall₂ (fun c f => s.table.columns[c.toNat]? = some f) cols s.rowType := by
  obtain ⟨fields, project⟩ := exists_project_of_check accepted projected
  have each : List.Forall₂ (fun c f => s.table.columns[c.toNat]? = some f) cols fields := by
    refine (mapM_eq_ok_iff.1 project).imp fun c f h => ?_
    unfold Table.column at h
    split at h
    · next column =>
      cases h
      exact column
    · cases h
  have all : cols.filterMap (fun c => s.table.columns[c.toNat]?) = fields := by
    clear project projected
    induction each with
    | nil => rfl
    | cons here _ ih => rw [List.filterMap_cons, here, ih]
  rw [rowType, projected]
  simp only [all, each]

/-- A field of a scan is the table column that it comes from. -/
theorem column_eq_field (accepted : s.check = .ok ()) {pos : Nat} {c : ColumnId}
    (column : s.column? pos = some c) (bound : pos < 65536) :
    s.table.columns[c.toNat]? = s.rowType[pos]? := by
  unfold column? at column
  cases projected : s.projected with
  | none =>
    simp only [projected] at column
    split at column
    · cases column
      rw [ColumnId.toNat_ofNat, Nat.mod_eq_of_lt bound, rowType, projected]
    · cases column
  | some cols =>
    simp only [projected] at column
    obtain ⟨f, field, here⟩ :=
      exists_getElem?_left_of_forall₂ (forall₂_rowType accepted projected).flip column
    rw [field, here]

end TableScan

namespace SearchKey

variable {keys : List SearchKey} {rhs p : Plan}

/-- Cast or not, the columns have the types of the left keys. -/
theorem map_projections (keys : List SearchKey) :
    (projections keys).map (fun f => (⟨f.name, f.expr.type⟩ : Field)) =
      keys.map fun k => ⟨k.field.name, k.target⟩ := by
  unfold projections
  split
  · rw [List.map_map]
    rfl
  · next uncast =>
    rw [List.map_map]
    refine List.map_congr_left fun k hk => ?_
    exact congrArg (Field.mk k.field.name) (type_eq_target uncast hk)

theorem KeyPlan.rowType_eq (h : KeyPlan keys rhs p) :
    p.rowType = keys.map fun k => ⟨k.field.name, k.target⟩ := by
  rw [← map_projections]
  cases h <;> rfl

theorem exists_projection {n : Nat} {k : SearchKey} (h : keys[n]? = some k) :
    ∃ f, (projections keys)[n]? = some f ∧ f.expr.positions = [k.pos] := by
  unfold projections
  split
  · exact ⟨⟨k.field.name, .cast k.raw k.target⟩, by simp [h], rfl⟩
  · exact ⟨k.column, by simp [h], rfl⟩

end SearchKey

namespace Plan

/-- `ComputedFrom rhs n pos keys`: column `n` of the plan `keys` is computed from the field `pos` of
`rhs`, and from no other. Rows of `rhs` may be missing. -/
inductive ComputedFrom (rhs : Plan) (n pos : Nat) : Plan → Prop
  | intro {i j : NodeId} {cols : ColumnList} {distinct : Bool} {fields : List Projection} {f : Projection}
      {x : Plan} (input : x = rhs ∨ ∃ k e, x = .node k (.filter e) [rhs]) (column : fields[n]? = some f)
      (alone : f.expr.positions = [pos]) :
      ComputedFrom rhs n pos (.node i (.sort cols distinct) [.node j (.project fields) [x]])

end Plan

theorem SearchKey.KeyPlan.computedFrom {keys : List SearchKey} {rhs p : Plan} (h : KeyPlan keys rhs p)
    {n : Nat} {k : SearchKey} (hk : keys[n]? = some k) : Plan.ComputedFrom rhs n k.pos p := by
  obtain ⟨f, column, alone⟩ := exists_projection hk
  cases h with
  | unfiltered => exact .intro (.inl rfl) column alone
  | filtered => exact .intro (.inr ⟨_, _, rfl⟩) column alone

/-! ## Columns and key columns -/

/-- The columns of the search keys `keys` line up with the key columns of `index`: key column `n` is
that of the join key at position `a[n]`, and no join key stands for two of them. -/
structure ScanSemiJoin.LinesUp (m : ScanSemiJoin) (index : Index) (a : KeyAssignment) (keys : Plan) :
    Prop where
  distinct : a.Nodup
  width : keys.rowType.length = a.length
  columns : ∀ n i, a[n]? = some i → ∃ l r c f, m.lhsKeys[i]? = some l ∧ m.rhsKeys[i]? = some r ∧
    m.scan.column? l.toNat = some c ∧ index.keys[n]? = some c ∧ m.scan.table.columns[c.toNat]? = some f ∧
    Plan.ComputedFrom m.rhs n r.toNat keys ∧ keys.rowType.type? n = some f.type

theorem ScanSemiJoin.linesUp_of_keyPlan {m : ScanSemiJoin} {index : Index} {joinCols : List ColumnId}
    {keyed : List SearchKey} {keys : Plan} (accepted : m.scan.check = .ok ())
    (columns : m.scan.joinColumns m.lhsKeys = .ok joinCols)
    (selected : (KeyAssignment.ofKeys index.keys joinCols).mapM
      (SearchKey.ofJoinKey m.lhsKeys m.rhsKeys m.scan.rowType m.rhs.rowType) = .ok keyed)
    (searched : SearchKey.KeyPlan keyed m.rhs keys) :
    m.LinesUp index (.ofKeys index.keys joinCols) keys where
  distinct := KeyAssignment.nodup_ofKeys _ _
  width := by
    rw [searched.rowType_eq, List.length_map]
    exact (mapM_eq_ok_iff.1 selected).length_eq.symm
  columns := by
    intro n i entry
    -- Entry `n` of the assignment has a key column, a join column and a search key beside it.
    obtain ⟨c, leading, joined⟩ :=
      exists_getElem?_left_of_forall₂ (KeyAssignment.forall₂_ofKeys index.keys joinCols).flip entry
    obtain ⟨l, left, column⟩ := TableScan.exists_key_of_joinColumns columns joined
    obtain ⟨k, key, keyOf⟩ := exists_getElem?_left_of_forall₂ (mapM_eq_ok_iff.1 selected).flip entry
    obtain ⟨l', r, target, field, left', right, targeted, -, rfl⟩ := SearchKey.ofJoinKey_eq_ok_iff.1 keyOf
    obtain rfl : l = l' := Option.some.inj (left.symm.trans left')
    have inside : m.scan.table.columns[c.toNat]? = some target :=
      (TableScan.column_eq_field accepted column l.toNat_lt).trans targeted
    refine ⟨l, r, c, target, left, right, column, ?_, inside, searched.computedFrom key, ?_⟩
    · rw [List.getElem?_take] at leading
      exact (Option.ite_none_right_eq_some.1 leading).2
    · rw [searched.rowType_eq, RowType.type?, List.getElem?_map, key]
      rfl

/-- Where a rule returns a plan, the search it added resolves to an unclustered index of the scanned
table, if no two indexes have the same id; no other unclustered index matches more join keys; and the
columns of the search keys line up with the key columns that are matched. -/
theorem searchKeys_lineUp_of_attempt [ParamAllocator] {r : SemiJoinRule} {p q : Plan}
    (h : (r.toRule.attempt p).Yields (some q)) :
    ∃ (m : ScanSemiJoin) (joinCols : List ColumnId) (index : Index) (source : IndexSource)
      (keys probe : Plan), p = m.plan ∧ m.scan.joinColumns m.lhsKeys = .ok joinCols ∧
      q.inputs.head? = some probe ∧ Plan.ExtendedProbe source keys (Plan.probe? m.inputs) probe ∧
      source.table = m.scan.table ∧ index ∈ m.scan.table.unclustered ∧
      ((m.scan.table.indexes.map Index.id).Nodup → source.table.index source.index = .ok index) ∧
      (∀ other ∈ m.scan.table.unclustered, (KeyAssignment.ofKeys other.keys joinCols).length ≤
        (KeyAssignment.ofKeys index.keys joinCols).length) ∧
      m.LinesUp index (.ofKeys index.keys joinCols) keys := by
  obtain ⟨m, c, rfl, @⟨n, keys, probe, joinCols, keyed, columns, choice, selected, searched, probed,
    accepted⟩⟩ := SemiJoinRule.rewrites_of_attempt h
  obtain ⟨mem, assigned⟩ := Selection.exists_of_choice choice
  refine ⟨m, joinCols, c.index, m.source c.index, keys, probe, rfl, columns, rfl, probed, rfl, mem,
    fun distinct => ?_, fun other hother => ?_, ?_⟩
  · have found := Table.index?_eq_of_mem distinct (List.mem_of_mem_filter mem)
    simp only [ScanSemiJoin.source, Table.index, found]
  · have longest := Selection.size_le_of_choice choice hother
    rwa [Candidate.size, Candidate.size, assigned] at longest
  · exact ScanSemiJoin.linesUp_of_keyPlan accepted columns (assigned ▸ selected) searched

/-- A semijoin of tables of pairs on both columns, for which there are two indexes: one on the first
column, and one on both in the opposite order. -/
def ScanSemiJoin.ofSwappedPairs : ScanSemiJoin := .ofPairs [.onPairs 1 [0], .onPairs 2 [1, 0]] [0, 1]

/-- The index on both columns is searched, the second join key first. -/
theorem searchKeys_lineUp_of_swappedPairs :
    ∃ q source keys probe,
      ((SemiJoinRule.mk .scan {}).toRule.attempt ScanSemiJoin.ofSwappedPairs.plan).Yields (some q) ∧
      q.inputs.head? = some probe ∧ Plan.SearchMerge none source keys probe ∧
      source.table.index source.index = .ok (.onPairs 2 [1, 0]) ∧
      ScanSemiJoin.ofSwappedPairs.LinesUp (.onPairs 2 [1, 0]) [1, 0] keys := by
  have run : ((SemiJoinRule.mk .scan {}).toRule.attempt ScanSemiJoin.ofSwappedPairs.plan).leadsTo
      { nextNode := 3 } (fun q? _ => q?.any fun _ => true) := by
    decide +kernel
  obtain ⟨q, v, returned, -⟩ := Planner.exists_some_of_leadsTo run
  obtain ⟨m, joinCols, index, source, keys, probe, semijoin, columns, first, probed, -, mem, resolves,
    longest, lineUp⟩ := searchKeys_lineUp_of_attempt returned.yields
  obtain rfl := ScanSemiJoin.plan_injective semijoin
  obtain rfl : joinCols = ColumnList.ofNats [0, 1] := (Except.ok.inj columns).symm
  obtain rfl : index = .onPairs 2 [1, 0] := by
    rcases List.mem_pair.1 mem with rfl | rfl
    · exact absurd (longest (.onPairs 2 [1, 0]) (by decide)) (by decide)
    · rfl
  cases probed with
  | first probed =>
    exact ⟨q, source, keys, probe, returned.yields, first, probed, resolves (by decide), lineUp⟩

end QueryPlan
