import Mathlib.Data.List.FinRange
import QueryPlan.Proofs.IndexChoice

/-!
# The longest match of an index

Matching never takes back an assignment. It loses nothing by that: a column that is a key column
several times needs as many join keys on it, and which of them stands for which key column does not
matter. So the leading key columns that are matched are the most that distinct join keys can stand for
(`KeyAssignment.longest_ofKeys`).
-/
namespace QueryPlan.KeyAssignment

/-- Distinct join keys, each on the column it stands for, can be found for the first `n` key columns. -/
def Coverable (keys : ColumnList) (joinCols : List ColumnId) (n : Nat) : Prop :=
  ∃ f : Fin n → Fin joinCols.length, f.Injective ∧ ∀ p : Fin n, keys[p.val]? = some joinCols[f p]

variable {keys : ColumnList} {joinCols : List ColumnId} {n : Nat}

/-- The columns that are still free lose the one that is assigned. -/
theorem map_fst_eraseP (free : List (ColumnId × Nat)) (key : ColumnId) :
    (free.eraseP (·.1 = key)).map Prod.fst = (free.map Prod.fst).erase key := by
  rw [List.erase_eq_eraseP, List.eraseP_map]
  have same : (fun entry : ColumnId × Nat => decide (entry.1 = key)) = (fun c => key == c) ∘ Prod.fst := by
    funext entry
    simp [Bool.beq_eq_decide_eq, eq_comm]
  rw [same]

/-- Matching gets as far as the key columns are free columns, repetitions counted. -/
theorem le_length_extend_of_subperm {free : List (ColumnId × Nat)} {keys : ColumnList} {n : Nat}
    (inside : n ≤ keys.length) (enough : (keys.take n).Subperm (free.map Prod.fst)) :
    n ≤ (extend free keys).length := by
  induction keys generalizing free n with
  | nil =>
    obtain rfl : n = 0 := by simpa using inside
    exact Nat.zero_le _
  | cons key keys ih =>
    cases n with
    | zero => exact Nat.zero_le _
    | succ n =>
      rw [List.take_succ_cons] at enough
      obtain ⟨entry, mem, column⟩ := List.mem_map.1 (enough.subset List.mem_cons_self)
      cases found : free.find? (·.1 = key) with
      | none => exact absurd column (by simpa using List.find?_eq_none.1 found entry mem)
      | some taken =>
        have rest : (keys.take n).Subperm ((free.eraseP (·.1 = key)).map Prod.fst) := by
          rw [map_fst_eraseP]
          simpa using enough.erase key
        simp only [extend, found, List.length_cons]
        exact Nat.succ_le_succ (ih (Nat.le_of_succ_le_succ inside) rest)

/-- The join keys found for the leading key columns are among all the join keys. -/
theorem Coverable.subperm (h : Coverable keys joinCols n) :
    n ≤ keys.length ∧ (keys.take n).Subperm joinCols := by
  obtain ⟨f, injective, columns⟩ := h
  have inside : n ≤ keys.length := by
    by_contra beyond
    have last := columns ⟨keys.length, by omega⟩
    simp at last
  refine ⟨inside, ?_⟩
  have covered : keys.take n = (List.ofFn f).map joinCols.get := by
    refine List.ext_getElem (by simpa using inside) fun p hp hp' => ?_
    have here : p < n := by simpa using hp'
    have column := columns ⟨p, here⟩
    rw [List.getElem?_eq_getElem (by omega)] at column
    simpa using Option.some.inj column
  obtain ⟨chosen, perm, sublist⟩ :=
    (List.nodup_ofFn.2 injective).subperm fun i _ => List.mem_finRange i
  have among := sublist.map joinCols.get
  rw [List.map_get_finRange] at among
  rw [covered]
  exact ⟨chosen.map joinCols.get, perm.map joinCols.get, among⟩

theorem exists_of_getElem?_ofKeys {p i : Nat} (h : (ofKeys keys joinCols)[p]? = some i) :
    ∃ inside : i < joinCols.length, keys[p]? = some joinCols[i] := by
  obtain ⟨key, leading, column⟩ :=
    exists_getElem?_left_of_forall₂ (forall₂_ofKeys keys joinCols).flip h
  obtain ⟨inside, rfl⟩ := List.getElem?_eq_some_iff.1 column
  rw [List.getElem?_take] at leading
  exact ⟨inside, (Option.ite_none_right_eq_some.1 leading).2⟩

theorem coverable_of_le_length_ofKeys (h : n ≤ (ofKeys keys joinCols).length) :
    Coverable keys joinCols n := by
  have assigned (p : Fin n) :
      (ofKeys keys joinCols)[p.val]? = some (ofKeys keys joinCols)[p.val] :=
    List.getElem?_eq_getElem (Nat.lt_of_lt_of_le p.isLt h)
  refine ⟨fun p => ⟨_, (exists_of_getElem?_ofKeys (assigned p)).1⟩, fun p q same => ?_, fun p => ?_⟩
  · have entries := congrArg Fin.val same
    exact Fin.ext ((nodup_ofKeys keys joinCols).getElem_inj_iff.1 entries)
  · exact (exists_of_getElem?_ofKeys (assigned p)).2

theorem le_length_ofKeys_iff :
    n ≤ (ofKeys keys joinCols).length ↔ n ≤ keys.length ∧ (keys.take n).Subperm joinCols := by
  refine ⟨fun h => (coverable_of_le_length_ofKeys h).subperm, fun ⟨inside, enough⟩ => ?_⟩
  exact le_length_extend_of_subperm inside (by simpa using enough)

/-- How far an index is matched does not depend on the order of the join keys. -/
theorem length_ofKeys_perm {others : List ColumnId} (h : others.Perm joinCols) :
    (ofKeys keys others).length = (ofKeys keys joinCols).length := by
  have same (n : Nat) :
      n ≤ (ofKeys keys others).length ↔ n ≤ (ofKeys keys joinCols).length := by
    simp only [le_length_ofKeys_iff, h.subperm_left]
  exact Nat.le_antisymm ((same _).1 le_rfl) ((same _).2 le_rfl)

/-- Distinct join keys are assigned to leading key columns on the same columns, and to as many of them
as can be found distinct join keys for. How many these are does not depend on the order of the join
keys; they are no more than there are key columns, nor than there are join keys. -/
theorem longest_ofKeys (keys : ColumnList) (joinCols : List ColumnId) :
    (ofKeys keys joinCols).Nodup ∧
    (∀ p i : Nat, (ofKeys keys joinCols)[p]? = some i →
      ∃ inside : i < joinCols.length, keys[p]? = some joinCols[i]) ∧
    (∀ n, Coverable keys joinCols n ↔ n ≤ (ofKeys keys joinCols).length) ∧
    (∀ others : List ColumnId, others.Perm joinCols →
      (ofKeys keys others).length = (ofKeys keys joinCols).length) ∧
    (ofKeys keys joinCols).length ≤ keys.length ∧ (ofKeys keys joinCols).length ≤ joinCols.length := by
  refine ⟨nodup_ofKeys _ _, fun _ _ => exists_of_getElem?_ofKeys, fun n => ⟨fun h => ?_, ?_⟩,
    fun _ => length_ofKeys_perm, length_ofKeys_le _ _, length_ofKeys_le_joinKeys _ _⟩
  · exact le_length_ofKeys_iff.2 h.subperm
  · exact coverable_of_le_length_ofKeys

/-- Three of the four key columns and two of the three join keys are on column 3, so the last key column
finds no join key. With the join keys in another order, as many are found. -/
theorem longest_ofKeys_repeated :
    ofKeys (.ofNats [3, 3, 1, 3]) (ColumnList.ofNats [3, 1, 3]) = [0, 2, 1] ∧
    Coverable (.ofNats [3, 3, 1, 3]) (ColumnList.ofNats [3, 1, 3]) 3 ∧
    ¬Coverable (.ofNats [3, 3, 1, 3]) (ColumnList.ofNats [3, 1, 3]) 4 ∧
    (ofKeys (.ofNats [3, 3, 1, 3]) (ColumnList.ofNats [1, 3, 3])).length = 3 := by
  obtain ⟨-, -, coverable, perm, -⟩ :=
    longest_ofKeys (.ofNats [3, 3, 1, 3]) (ColumnList.ofNats [3, 1, 3])
  refine ⟨by decide, (coverable 3).2 (by decide), fun four => ?_, ?_⟩
  · exact absurd ((coverable 4).1 four) (by decide)
  · exact perm _ (by decide)

end QueryPlan.KeyAssignment
