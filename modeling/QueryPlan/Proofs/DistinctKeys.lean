import Mathlib.Data.List.Pairwise
import QueryPlan.Proofs.IndexedRows

/-!
# Distinct search keys

The search keys are sorted by all their columns as far as 16 bits tell the columns apart: from the 65537th on the sort
keys start again at the first column (`SearchKey.sort_keys_of_plan`). The rows that the sort keeps are distinct in any
case, on the first 65536 columns already. So with more columns it loses rows that differ on the others only.
-/
namespace QueryPlan

namespace ColumnList

theorem map_toNat_iota (n : Nat) : (iota n).map ColumnId.toNat = (List.range n).map (· % 65536) := by
  simp [iota, ofNats, Function.comp_def]

/-- A list of ids counts up to its length if 16 bits can hold all positions. -/
theorem map_toNat_iota_eq_range_iff {n : Nat} : (iota n).map ColumnId.toNat = List.range n ↔ n ≤ 65536 := by
  rw [map_toNat_iota]
  constructor
  · intro counts
    by_contra more
    have first := congrArg (·[65536]?) counts
    have inside : 65536 < n := Nat.not_le.1 more
    simp [inside] at first
  · intro bound
    refine List.map_congr_left (g := id) (fun i hi => ?_) |>.trans (List.map_id _)
    exact Nat.mod_eq_of_lt (Nat.lt_of_lt_of_le (List.mem_range.1 hi) bound)

end ColumnList

namespace Row

variable {α : Type}

/-- All columns together tell two rows apart on the first 65536. -/
theorem values_iota_eq_iff {n : Nat} {a b : Row α} (ha : a.length = n) (hb : b.length = n) :
    a.values (.iota n) = b.values (.iota n) ↔ ∀ c < 65536, a.value c = b.value c := by
  have positions : a.values (.iota n) = b.values (.iota n) ↔ ∀ i < n, a.value (i % 65536) = b.value (i % 65536) := by
    simp [values, ColumnList.iota, ColumnList.ofNats]
  rw [positions]
  constructor
  · intro same c bound
    by_cases inside : c < n
    · simpa [Nat.mod_eq_of_lt bound] using same c inside
    · rw [value, value, List.getElem?_eq_none (by omega), List.getElem?_eq_none (by omega)]
  · exact fun same i _ => same _ (Nat.mod_lt i (by decide))

/-- The rows differ in one of the first 65536 columns. -/
def Apart (a b : Row α) : Prop := ∃ c < 65536, a.value c ≠ b.value c

instance : Std.Symm (Apart (α := α)) where
  symm _ _ := fun ⟨c, bound, differ⟩ => ⟨c, bound, differ.symm⟩

/-- Of the rows that have the same values in the first 65536 columns one is kept. -/
structure Condensed (rows kept : List (Row α)) : Prop where
  subset : kept ⊆ rows
  apart : kept.Pairwise Apart
  represented : ∀ row ∈ rows, ∃ k ∈ kept, ∀ c < 65536, k.value c = row.value c

variable {rows kept : List (Row α)}

theorem Condensed.nodup (h : Condensed rows kept) : kept.Nodup :=
  h.apart.imp fun ⟨_, _, differ⟩ same => differ (by rw [same])

/-- Rows that differ from the 65537th column on only are not kept both. -/
theorem Condensed.eq_of_mem (h : Condensed rows kept) {a b : Row α} (ha : a ∈ kept) (hb : b ∈ kept)
    (same : ∀ c < 65536, a.value c = b.value c) : a = b := by
  by_contra ne
  obtain ⟨c, bound, differ⟩ := h.apart.forall ha hb ne
  exact differ (same c bound)

end Row

theorem Runtime.condensed_arrangeDistinct_iota {α : Type} (rt : Runtime α) {n : Nat} {rows : List (Row α)}
    (lengths : ∀ row ∈ rows, row.length = n) : Row.Condensed rows (rt.arrangeDistinct (.iota n) rows) where
  subset := rt.subset_of_arrangeDistinct _ rows
  apart := by
    refine (List.pairwise_map.1 (rt.nodup_arrangeDistinct (.iota n) rows)).imp_of_mem fun {a b} ha hb ne => ?_
    have length {row : Row α} (h : row ∈ rt.arrangeDistinct (.iota n) rows) : row.length = n :=
      lengths row (rt.subset_of_arrangeDistinct _ rows h)
    by_contra same
    refine ne ((Row.values_iota_eq_iff (length ha) (length hb)).2 fun c bound => ?_)
    by_contra differ
    exact same ⟨c, bound, differ⟩
  represented row hrow := by
    obtain ⟨kept, mem, same⟩ := rt.exists_mem_arrangeDistinct (.iota n) rows row hrow
    have length := lengths kept (rt.subset_of_arrangeDistinct _ rows mem)
    exact ⟨kept, mem, (Row.values_iota_eq_iff length (lengths row hrow)).1 same⟩

namespace SearchKey

variable {lhsKeys rhsKeys : ColumnList} {lhsRow : RowType} {rhs p : Plan} {a : KeyAssignment} {keys : List SearchKey}

/-- The rows that are sorted have a column for every key. -/
theorem KeyPlan.condensed {i j : NodeId} {x : Plan}
    (h : KeyPlan keys rhs (.node i (.sort (.iota keys.length) true) [.node j (.project (projections keys)) [x]]))
    {α : Type} [DecidableEq α] (rt : Runtime α) :
    Row.Condensed (rt.rows (.node j (.project (projections keys)) [x]))
      (rt.rows (.node i (.sort (.iota keys.length) true) [.node j (.project (projections keys)) [x]])) := by
  rw [rt.rows_node i]
  refine rt.condensed_arrangeDistinct_iota fun row hrow => ?_
  obtain ⟨r, -, -, rfl⟩ := (rt.mem_rows_projected h).1 hrow
  rw [List.length_map]

/-- The search keys are sorted by their columns in order, as many as there are, but their ids keep 16 bits of the
positions. The rows that are left are distinct, and stand for all others that have the same first 65536 values; with
up to 65536 columns none is lost. -/
theorem sort_keys_of_plan (h : (plan lhsKeys rhsKeys lhsRow rhs a).Yields p) :
    ∃ i keys projected, p = .node i (.sort keys true) [projected] ∧ projected.rowType.length = a.length ∧
      keys.map ColumnId.toNat = (List.range a.length).map (· % 65536) ∧
      (keys.map ColumnId.toNat = List.range projected.rowType.length ↔ a.length ≤ 65536) ∧
      ∀ {α : Type} [DecidableEq α] (rt : Runtime α),
        (rt.rows p).Nodup ∧ Row.Condensed (rt.rows projected) (rt.rows p) ∧
          (a.length ≤ 65536 → ∀ row, row ∈ rt.rows p ↔ row ∈ rt.rows projected) := by
  obtain ⟨keys, selected, planned⟩ := yields_plan h
  have length : keys.length = a.length := (mapM_eq_ok_iff.1 selected).length_eq.symm
  obtain ⟨i, j, x, rfl⟩ := planned.exists_eq
  have columns : (Plan.node j (.project (projections keys)) [x]).rowType.length = a.length := by
    simp [Operator.output, Operator.ownOutput?, length]
  refine ⟨i, _, _, rfl, columns, ?_, ?_, fun {α} _ rt => ?_⟩
  · rw [ColumnList.map_toNat_iota, length]
  · rw [columns, length]
    exact ColumnList.map_toNat_iota_eq_range_iff
  · have condensed := planned.condensed rt
    refine ⟨condensed.nodup, condensed, fun bound row => ?_⟩
    rw [rt.mem_rows_keyPlan planned (length ▸ bound), rt.mem_rows_projected planned]

/-! ## More columns than ids -/

/-- The first join key `n` times and the second once. -/
def repeated (n : Nat) : KeyAssignment := List.replicate n 0 ++ [1]

def firstKey : SearchKey := ⟨0, ⟨"first", .bigint⟩, ⟨"first", .bigint⟩⟩

def secondKey : SearchKey := ⟨1, ⟨"second", .bigint⟩, ⟨"second", .bigint⟩⟩

def repeatedKeys (n : Nat) : List SearchKey := List.replicate n firstKey ++ [secondKey]

theorem mapM_repeated (n : Nat) :
    (repeated n).mapM (ofJoinKey (.ofNats [0, 1]) (.ofNats [0, 1]) Plan.morePairs.rowType Plan.morePairs.rowType) =
      .ok (repeatedKeys n) := by
  rw [mapM_eq_ok_iff]
  induction n with
  | zero => exact .cons rfl .nil
  | succ n ih => exact .cons rfl ih

theorem eq_of_mem_repeatedKeys {n : Nat} {k : SearchKey} (h : k ∈ repeatedKeys n) : k = firstKey ∨ k = secondKey :=
  (List.mem_append.1 h).imp List.eq_of_mem_replicate List.mem_singleton.1

theorem value_map_repeatedKeys {α : Type} (f : SearchKey → Option α) {n c : Nat} (bound : c < n) :
    Row.value ((repeatedKeys n).map f) c = f firstKey := by
  have inside : c < (List.replicate n (f firstKey)).length := by rwa [List.length_replicate]
  rw [Row.value, repeatedKeys, List.map_append, List.map_replicate, List.getElem?_append_left inside,
    List.getElem?_replicate_of_lt bound, Option.getD_some]

theorem last_value_map_repeatedKeys {α : Type} (f : SearchKey → Option α) (n : Nat) :
    Row.value ((repeatedKeys n).map f) n = f secondKey := by
  simp [Row.value, repeatedKeys]

/-- Two pairs with the same first value. -/
def twoPairs : Runtime Nat := .ofContents fun _ => [[some 0, some 0], [some 0, some 1]]

theorem sort_keys_of_swapped :
    ∃ p, (plan (.ofNats [0, 1]) (.ofNats [0, 1]) Plan.morePairs.rowType Plan.morePairs [1, 0]).Yields p ∧
      ∃ i keys projected, p = .node i (.sort keys true) [projected] ∧ projected.rowType.length = 2 ∧
        keys.map ColumnId.toNat = List.range projected.rowType.length ∧ (twoPairs.rows p).Nodup := by
  have built : ∃ p, (plan (.ofNats [0, 1]) (.ofNats [0, 1]) Plan.morePairs.rowType Plan.morePairs [1, 0]).Yields p :=
    ⟨_, { nextNode := 4 }, _, rfl⟩
  obtain ⟨p, planned⟩ := built
  obtain ⟨i, keys, projected, shape, columns, -, counts, rows⟩ := sort_keys_of_plan planned
  exact ⟨p, planned, i, keys, projected, shape, columns, counts.2 (by decide), (rows twoPairs).1⟩

/-- Of two rows that differ in the last of more than 65536 columns one is lost. -/
theorem exists_row_lost {n : Nat} (more : 65536 ≤ n) {i j : NodeId} {x : Plan}
    (planned : KeyPlan (repeatedKeys n) Plan.morePairs (.node i (.sort (.iota (repeatedKeys n).length) true)
      [.node j (.project (projections (repeatedKeys n))) [x]])) :
    ∃ row ∈ twoPairs.rows (.node j (.project (projections (repeatedKeys n))) [x]),
      row ∉ twoPairs.rows (.node i (.sort (.iota (repeatedKeys n).length) true)
        [.node j (.project (projections (repeatedKeys n))) [x]]) := by
  by_contra lost
  push Not at lost
  have projected (second : Nat) (stored : [some 0, some second] ∈ twoPairs.rows Plan.morePairs) := by
    refine (twoPairs.mem_rows_projected planned).2 ⟨_, stored, fun k hk => ?_, rfl⟩
    rcases eq_of_mem_repeatedKeys hk with rfl | rfl <;> rfl
  have same := (planned.condensed twoPairs).eq_of_mem (lost _ (projected 0 (by decide)))
    (lost _ (projected 1 (by decide))) fun c bound => by
      rw [value_map_repeatedKeys _ (Nat.lt_of_lt_of_le bound more),
        value_map_repeatedKeys _ (Nat.lt_of_lt_of_le bound more)]
      rfl
  have last := congrArg (Row.value · n) same
  simp only [last_value_map_repeatedKeys] at last
  exact absurd last (by decide)

/-- With 65537 columns the first is a sort key twice and the last is none. A row that differs from another in the
last column is lost. -/
theorem row_lost_of_repeated :
    ∃ p, (plan (.ofNats [0, 1]) (.ofNats [0, 1]) Plan.morePairs.rowType Plan.morePairs (repeated 65536)).Yields p ∧
      ∃ i keys projected, p = .node i (.sort keys true) [projected] ∧ projected.rowType.length = 65537 ∧
        keys[65536]? = some (.ofNat 0) ∧ keys.map ColumnId.toNat ≠ List.range projected.rowType.length ∧
        ∃ row ∈ twoPairs.rows projected, row ∉ twoPairs.rows p := by
  obtain ⟨p, w, returned⟩ := succeeds_plan (mapM_repeated 65536) {}
  have yielded : (plan (.ofNats [0, 1]) (.ofNats [0, 1]) Plan.morePairs.rowType Plan.morePairs
      (repeated 65536)).Yields p := ⟨_, w, returned⟩
  obtain ⟨keys, selected, planned⟩ := yields_plan yielded
  obtain rfl : repeatedKeys 65536 = keys := Except.ok.inj ((mapM_repeated 65536).symm.trans selected)
  obtain ⟨i, j, x, rfl⟩ := planned.exists_eq
  have length : (repeatedKeys 65536).length = 65537 := by
    rw [repeatedKeys, List.length_append, List.length_replicate]
    rfl
  have columns : (Plan.node j (.project (projections (repeatedKeys 65536))) [x]).rowType.length = 65537 := by
    rw [Plan.rowType_node, Operator.output, Operator.ownOutput?, Option.getD_some, List.length_map,
      length_projections, length]
  refine ⟨_, yielded, i, _, _, rfl, columns, ?_, ?_, ?_⟩
  · rw [length]
    exact ColumnList.getElem?_iota (by decide)
  · rw [columns, length, Ne, ColumnList.map_toNat_iota_eq_range_iff]
    decide
  · exact exists_row_lost (Nat.le_refl 65536) planned

end SearchKey

end QueryPlan
