import QueryPlan.Proofs.Rewriting
import QueryPlan.Proofs.Runtime

/-!
# The rows that a rewritten semijoin returns

The search keys of a rewriting are the converted values of the matched fields of the right side, for
the rows in which none of them is null. A stored row is found for them exactly when it agrees with a
row of the right side on the join keys that the index covers. The scan keeps what its former probe
selected, so it returns the rows of the left side that agree with some row of the right side on the
covered keys.
-/
namespace QueryPlan.Runtime

variable {α : Type} [DecidableEq α] (rt : Runtime α)

/-! ## Search keys -/

/-- The value of a search key: the field of the row on the right, converted to the type on the left. -/
def searchValue (row : Row α) (k : SearchKey) : Option α :=
  (row.value k.pos).map (rt.convert k.field.type k.target)

theorem eval_raw (row : Row α) (k : SearchKey) : rt.eval row k.raw = row.value k.pos := by
  simp [SearchKey.raw, eval]

/-- Casting every key or none yields the converted values, as a conversion to the same type changes
nothing. -/
theorem map_eval_projections (row : Row α) (keys : List SearchKey) :
    ((SearchKey.projections keys).map fun f => rt.eval row f.expr) = keys.map (rt.searchValue row) := by
  unfold SearchKey.projections
  split
  · simp only [List.map_map]
    refine List.map_congr_left fun k _ => ?_
    simp [eval, searchValue, SearchKey.raw, Scalar.type]
  · next uncast =>
    simp only [List.map_map]
    refine List.map_congr_left fun k hk => ?_
    have same : k.field.type = k.target := SearchKey.type_eq_target uncast hk
    have unchanged : rt.convert k.field.type k.target = id := by
      rw [same]
      exact funext (rt.convert_self k.target)
    simp [eval_raw, searchValue, unchanged]

omit [DecidableEq α] in
theorem truth_eq_iff {b c : Bool} : rt.truth b = rt.truth c ↔ b = c := by
  cases b <;> cases c <;> simp [rt.truth_ne, rt.truth_ne.symm]

theorem conjoin_eq_true {terms : List Bool} :
    rt.conjoin (terms.map fun b => some (rt.truth b)) = some (rt.truth true) ↔ ∀ b ∈ terms, b = true := by
  simp only [conjoin, List.mem_map, Option.some.injEq, truth_eq_iff, forall_exists_index, and_imp,
    forall_apply_eq_imp_iff₂, exists_eq_right]
  by_cases h : false ∈ terms
  · simp [h, rt.truth_ne.symm]
  · simp [h]

theorem eval_notNull? (row : Row α) {keys : List SearchKey} {e : Scalar}
    (h : SearchKey.notNull? keys = some e) :
    rt.eval row e = some (rt.truth true) ↔ ∀ k ∈ keys, (row.value k.pos).isSome := by
  unfold SearchKey.notNull? at h
  split at h
  · cases h
  · next x one =>
    cases h
    obtain ⟨k, rfl, rfl⟩ := List.map_eq_singleton_iff.1 one
    simp [eval, eval_raw, truth_eq_iff]
  · cases h
    have terms : ((keys.map SearchKey.raw).map Scalar.isNotNull).map (rt.eval row) =
        (keys.map fun k => (row.value k.pos).isSome).map fun b => some (rt.truth b) := by
      simp [eval, eval_raw]
    rw [eval, evalAll_eq_map, terms, conjoin_eq_true, List.forall_mem_map]

omit [DecidableEq α] in
theorem values_iota {row : Row α} {n : Nat} (length : row.length = n) (bound : n ≤ 65536) :
    row.values (.iota n) = row := by
  refine List.ext_getElem? fun i => ?_
  by_cases h : i < n
  · have pos : (ColumnId.ofNat i).toNat = i := Nat.mod_eq_of_lt (by omega)
    have inside : i < row.length := by omega
    rw [Row.values, List.getElem?_map, ColumnList.getElem?_iota h, Option.map_some, Row.value, pos,
      List.getElem?_eq_getElem inside, Option.getD_some]
  · have outside : row.length ≤ i := by omega
    have beyond : (row.values (.iota n)).length ≤ i := by
      rw [Row.values, List.length_map, ColumnList.length_iota]
      omega
    rw [List.getElem?_eq_none outside, List.getElem?_eq_none beyond]

omit [DecidableEq α] in
/-- A distinct sort by all fields loses no row. -/
theorem mem_arrangeDistinct_iota {n : Nat} {rows : List (Row α)} (lengths : ∀ row ∈ rows, row.length = n)
    (bound : n ≤ 65536) {row : Row α} : row ∈ rt.arrangeDistinct (.iota n) rows ↔ row ∈ rows := by
  constructor
  · exact fun h => rt.subset_of_arrangeDistinct _ _ h
  · intro h
    obtain ⟨kept, mem, same⟩ := rt.exists_mem_arrangeDistinct (.iota n) rows row h
    have keptLength := lengths _ (rt.subset_of_arrangeDistinct _ _ mem)
    rw [values_iota keptLength bound, values_iota (lengths _ h) bound] at same
    exact same ▸ mem

/-- The converted values of the rows on the right that have no null among them are projected. -/
theorem mem_rows_projected {keys : List SearchKey} {rhs x : Plan} {i j : NodeId} {cols : ColumnList}
    (h : SearchKey.KeyPlan keys rhs
      (.node i (.sort cols true) [.node j (.project (SearchKey.projections keys)) [x]])) {key : Row α} :
    key ∈ rt.rows (.node j (.project (SearchKey.projections keys)) [x]) ↔
      ∃ r ∈ rt.rows rhs, (∀ k ∈ keys, (r.value k.pos).isSome) ∧ key = keys.map (rt.searchValue r) := by
  cases h with
  | unfiltered none =>
    have empty : keys = [] := by
      unfold SearchKey.notNull? at none
      split at none
      · next h => exact List.map_eq_nil_iff.1 h
      · cases none
      · cases none
    simp only [rows_node, operate, List.map_cons, List.map_nil, map_eval_projections]
    simp only [empty, List.mem_map, List.map_nil, List.not_mem_nil, IsEmpty.forall_iff, implies_true,
      true_and, eq_comm (b := key)]
  | filtered some =>
    simp only [rows_node, operate, List.map_cons, List.map_nil, map_eval_projections]
    simp only [List.mem_map, List.mem_filter, decide_eq_true_eq, rt.eval_notNull? _ some, and_assoc,
      eq_comm (b := key)]

/-- The search keys are the projected rows, each of them once. -/
theorem mem_rows_keyPlan {keys : List SearchKey} {rhs p : Plan} (h : SearchKey.KeyPlan keys rhs p)
    (bound : keys.length ≤ 65536) {key : Row α} :
    key ∈ rt.rows p ↔
      ∃ r ∈ rt.rows rhs, (∀ k ∈ keys, (r.value k.pos).isSome) ∧ key = keys.map (rt.searchValue r) := by
  obtain ⟨i, j, x, rfl⟩ := h.exists_eq
  have lengths : ∀ row ∈ rt.rows (.node j (.project (SearchKey.projections keys)) [x]), row.length = keys.length := by
    intro row hrow
    obtain ⟨r, -, -, rfl⟩ := (rt.mem_rows_projected h).1 hrow
    rw [List.length_map]
  rw [← rt.mem_rows_projected h, rows_node]
  exact rt.mem_arrangeDistinct_iota lengths bound

/-! ## Matching a stored row -/

omit [DecidableEq α] in
theorem value_output {s : TableScan} {pos : Nat} {c : ColumnId} (column : s.column? pos = some c)
    (bound : pos < 65536) (row : Row α) : (s.output row).value pos = row.value c.toNat := by
  unfold TableScan.column? at column
  unfold TableScan.output
  cases projected : s.projected with
  | none =>
    simp only [projected] at column
    split at column
    · cases column
      rw [ColumnId.toNat_ofNat, Nat.mod_eq_of_lt bound]
    · cases column
  | some cols =>
    simp only [projected] at column
    simp [Row.value, Row.values, column]

section

variable {lhsKeys rhsKeys : ColumnList} {s : TableScan} {rhsRow : RowType} {a : KeyAssignment}
  {keys : List SearchKey} {cols : ColumnList}

/-- A row that a scan returns of a stored row agrees on join key `i` if the indexed column has the
value of the search key, and that is not null. -/
theorem agree_output {i : Nat} {key c : ColumnId} {k : SearchKey} (left : lhsKeys[i]? = some key)
    (column : s.column? key.toNat = some c)
    (keyed : SearchKey.ofJoinKey lhsKeys rhsKeys s.rowType rhsRow i = .ok k) (row r : Row α) :
    rt.agree ⟨lhsKeys, rhsKeys, s.rowType, rhsRow⟩ (s.output row) r i = true ↔
      (r.value k.pos).isSome ∧ row.value c.toNat = rt.searchValue r k := by
  obtain ⟨l, right, target, field, hl, hright, htarget, hfield, rfl⟩ :=
    SearchKey.ofJoinKey_eq_ok_iff.1 keyed
  obtain rfl : key = l := Option.some.inj (left.symm.trans hl)
  simp only [agree, hl, hright, RowType.type?, htarget, hfield, Option.map_some,
    value_output column key.toNat_lt, searchValue]
  cases row.value c.toNat <;> cases r.value right.toNat <;> simp

theorem all_agree_output
    (columns : List.Forall₂
      (fun i c => ∃ key, lhsKeys[i]? = some key ∧ s.column? key.toNat = some c) a cols)
    (keyed : List.Forall₂
      (fun i k => SearchKey.ofJoinKey lhsKeys rhsKeys s.rowType rhsRow i = .ok k) a keys)
    (row r : Row α) :
    a.all (rt.agree ⟨lhsKeys, rhsKeys, s.rowType, rhsRow⟩ (s.output row) r) = true ↔
      (∀ k ∈ keys, (r.value k.pos).isSome) ∧ row.values cols = keys.map (rt.searchValue r) := by
  induction columns generalizing keys with
  | nil =>
    cases keyed
    simp [Row.values]
  | cons column _ ih =>
    cases keyed with
    | cons keyed rest =>
      obtain ⟨key, left, column⟩ := column
      rw [List.all_cons, Bool.and_eq_true, rt.agree_output left column keyed, ih rest]
      simp only [List.forall_mem_cons, Row.values, List.map_cons, List.cons.injEq]
      exact and_and_and_comm

end

end QueryPlan.Runtime
