import Mathlib.Data.List.Nodup
import QueryPlan.Operator

/-!
# What the checks accept

Keys and field references are accepted exactly when they are in range, an operator accepts as many
inputs as its kind takes, and an index is found by the id of any index of its table, by that of
exactly this index if no two indexes share an id.
-/
namespace QueryPlan

theorem find?_le_eq_none_iff {α : Type} {f : α → Nat} {width : Nat} {xs : List α} :
    xs.find? (fun x => width ≤ f x) = none ↔ ∀ x ∈ xs, f x < width := by
  rw [List.find?_eq_none]
  refine forall₂_congr fun x _ => ?_
  simp only [decide_eq_true_eq, Nat.not_le]

theorem RowType.checkKeys_eq_ok_iff {row : RowType} {keys : ColumnList} :
    row.checkKeys keys = .ok () ↔ ∀ k ∈ keys, k.toNat < row.length := by
  rw [← find?_le_eq_none_iff, checkKeys]
  cases h : keys.find? (row.length ≤ ·.toNat) <;> simp

theorem Scalar.checkFields_eq_ok_iff {e : Scalar} {row : RowType} :
    e.checkFields row = .ok () ↔ ∀ pos ∈ e.positions, pos < row.length := by
  rw [← find?_le_eq_none_iff, checkFields]
  cases h : e.positions.find? (row.length ≤ ·) <;> simp

theorem Operator.check_semiJoin_eq_ok_iff {lhsKeys rhsKeys : ColumnList} {lhs rhs : RowType} :
    (semiJoin lhsKeys rhsKeys).check [lhs, rhs] = .ok () ↔
      lhsKeys.length = rhsKeys.length ∧ (∀ k ∈ lhsKeys, k.toNat < lhs.length) ∧
        ∀ k ∈ rhsKeys, k.toNat < rhs.length := by
  rw [← RowType.checkKeys_eq_ok_iff, ← RowType.checkKeys_eq_ok_iff, check]
  by_cases same : lhsKeys.length = rhsKeys.length
  · cases lhs.checkKeys lhsKeys <;> simp [same, bind, Except.bind]
  · simp [same, bind, Except.bind, throw, throwThe, MonadExceptOf.throw]

/-- An operator accepts as many inputs as its kind takes. -/
theorem Operator.length_eq_of_check {op : Operator} {rows : List RowType} (h : op.check rows = .ok ())
    {n : Nat} (arity : op.kind.arity? = some n) : rows.length = n := by
  unfold check at h
  split at h
  · exact Option.some.inj arity
  · cases arity
  · exact Option.some.inj arity
  · exact Option.some.inj arity
  · cases arity
  · exact Option.some.inj arity
  · exact Option.some.inj arity
  · exact Option.some.inj arity
  · cases h

namespace Table

variable {t : Table} {index : Index}

theorem exists_index?_of_mem (mem : index ∈ t.indexes) : ∃ found ∈ t.indexes, found.id = index.id ∧
    t.index? index.id = some found := by
  obtain ⟨found, hfound⟩ : ∃ found, t.index? index.id = some found :=
    Option.isSome_iff_exists.1 (List.find?_isSome.2 ⟨index, mem, by simp⟩)
  have same : found.id = index.id := by simpa using List.find?_some hfound
  exact ⟨found, List.mem_of_find?_eq_some hfound, same, hfound⟩

theorem index?_eq_of_mem (distinct : (t.indexes.map Index.id).Nodup) (mem : index ∈ t.indexes) :
    t.index? index.id = some index := by
  obtain ⟨found, hfound, same, eq⟩ := exists_index?_of_mem mem
  rw [eq, List.inj_on_of_nodup_map distinct hfound mem same]

theorem exists_index_of_mem (mem : index ∈ t.indexes) : ∃ found, t.index index.id = .ok found := by
  obtain ⟨found, -, -, eq⟩ := exists_index?_of_mem mem
  exact ⟨found, by simp only [Table.index, eq]⟩

end Table

end QueryPlan
