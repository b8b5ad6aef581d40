import Mathlib.Data.List.Perm.Subperm
import QueryPlan.Proofs.Planning
import QueryPlan.Selection

/-!
# The chosen index

A key assignment covers leading index keys only, each of them by a join key on the same column, and
no join key is used twice. So no index matches more than all join keys, and a selection that stops at
one that matches them all keeps the candidate it would have kept in the end (`Selection.choice_resume`).
This is the first of the indexes that match the most join keys (`Selection.choice_eq_some_iff`). There
is no choice exactly if no index leads with a join column.
-/
namespace QueryPlan

namespace KeyAssignment

theorem forall₂_extend (free : List (ColumnId × Nat)) (keys : ColumnList) :
    List.Forall₂ (fun i key => (key, i) ∈ free) (extend free keys)
      (keys.take (extend free keys).length) := by
  induction keys generalizing free with
  | nil => exact .nil
  | cons key keys ih =>
    cases hf : free.find? (·.1 = key) with
    | none => simp [extend, hf]
    | some entry =>
      obtain ⟨col, i⟩ := entry
      have found : col = key := by simpa using List.find?_some hf
      have mem : (key, i) ∈ free := found ▸ List.mem_of_find?_eq_some hf
      simp only [extend, hf, List.length_cons, List.take_succ_cons]
      exact .cons mem ((ih _).imp fun _ _ h => List.mem_of_mem_eraseP h)

/-- Entry `p` is the position of a join key on the column of index key `p`. -/
theorem forall₂_ofKeys (keys : ColumnList) (joinCols : List ColumnId) :
    List.Forall₂ (fun i key => joinCols[i]? = some key) (ofKeys keys joinCols)
      (keys.take (ofKeys keys joinCols).length) :=
  (forall₂_extend joinCols.zipIdx keys).imp fun _ _ h => by
    simpa using List.mem_zipIdx_iff_getElem?.1 h

theorem length_ofKeys_le (keys : ColumnList) (joinCols : List ColumnId) :
    (ofKeys keys joinCols).length ≤ keys.length := by
  have h := (forall₂_ofKeys keys joinCols).length_eq
  rw [List.length_take] at h
  omega

theorem lt_length_of_mem_ofKeys {keys : ColumnList} {joinCols : List ColumnId} {i : Nat}
    (h : i ∈ ofKeys keys joinCols) : i < joinCols.length := by
  obtain ⟨key, -, hi⟩ := exists_right_of_forall₂ (forall₂_ofKeys keys joinCols) h
  exact (List.getElem?_eq_some_iff.1 hi).1

/-- The entry that is assigned is no longer free. -/
theorem nodup_erased {free : List (ColumnId × Nat)} {key col : ColumnId} {i : Nat}
    (distinct : (free.map Prod.snd).Nodup) (found : free.find? (·.1 = key) = some (col, i)) :
    i ∉ (free.eraseP (·.1 = key)).map Prod.snd ∧ ((free.eraseP (·.1 = key)).map Prod.snd).Nodup := by
  obtain ⟨here, before, after, rfl, others⟩ := List.find?_eq_some_iff_append.1 found
  have same : col = key := by simpa using here
  have left : (before ++ (col, i) :: after).eraseP (·.1 = key) = before ++ after := by
    rw [List.eraseP_append_right _ (by simpa using others)]
    simp [same]
  have apart : (((col, i) :: (before ++ after)).map Prod.snd).Nodup :=
    (List.perm_middle.map Prod.snd).nodup_iff.1 distinct
  rw [left]
  exact List.nodup_cons.1 apart

theorem nodup_extend {free : List (ColumnId × Nat)} (distinct : (free.map Prod.snd).Nodup)
    (keys : ColumnList) : (extend free keys).Nodup := by
  induction keys generalizing free with
  | nil => exact List.nodup_nil
  | cons key keys ih =>
    cases found : free.find? (·.1 = key) with
    | none => simp [extend, found]
    | some entry =>
      obtain ⟨col, i⟩ := entry
      obtain ⟨taken, rest⟩ := nodup_erased distinct found
      simp only [extend, found]
      -- What is assigned later was still free, so it is not the entry taken here.
      refine List.nodup_cons.2 ⟨fun again => taken ?_, ih rest⟩
      obtain ⟨key', -, mem⟩ := exists_right_of_forall₂ (forall₂_extend _ keys) again
      exact List.mem_map_of_mem (f := Prod.snd) mem

/-- No join key is assigned twice. -/
theorem nodup_ofKeys (keys : ColumnList) (joinCols : List ColumnId) : (ofKeys keys joinCols).Nodup := by
  refine nodup_extend ?_ keys
  rw [List.zipIdx_map_snd]
  exact List.nodup_range'

/-- No more keys are assigned than there are join keys. -/
theorem length_ofKeys_le_joinKeys (keys : ColumnList) (joinCols : List ColumnId) :
    (ofKeys keys joinCols).length ≤ joinCols.length := by
  have inside : ofKeys keys joinCols ⊆ List.range joinCols.length :=
    fun _ hi => List.mem_range.2 (lt_length_of_mem_ofKeys hi)
  simpa using ((nodup_ofKeys keys joinCols).subperm inside).length_le

/-- Nothing is assigned if the leading key column, if there is one, is no join column. -/
theorem ofKeys_eq_nil_iff {keys : ColumnList} {joinCols : List ColumnId} :
    ofKeys keys joinCols = [] ↔ ∀ key ∈ keys.head?, key ∉ joinCols := by
  cases keys with
  | nil => simp
  | cons key keys =>
    simp only [List.head?_cons, Option.mem_some_iff, forall_eq', ofKeys, extend]
    cases found : joinCols.zipIdx.find? (·.1 = key) with
    | none =>
      refine iff_of_true rfl fun mem => ?_
      obtain ⟨i, hi⟩ := List.mem_iff_getElem?.1 mem
      exact List.find?_eq_none.1 found (key, i) (List.mem_zipIdx_iff_getElem?.2 hi) (by simp)
    | some entry =>
      obtain ⟨col, i⟩ := entry
      have same : col = key := by simpa using List.find?_some found
      have mem : (col, i) ∈ joinCols.zipIdx := List.mem_of_find?_eq_some found
      have listed : col ∈ joinCols := List.mem_of_getElem? (List.mem_zipIdx_iff_getElem?.1 mem)
      exact iff_of_false (List.cons_ne_nil _ _) fun absent => absent (same ▸ listed)

end KeyAssignment

namespace Selection

/-- The candidate `c` is the first index that matches the most join keys, with its own assignment. It
matches some. -/
def FirstLongest (joinCols : List ColumnId) (indexes : List Index) (c : Candidate) : Prop :=
  ∃ before index after, indexes = before ++ index :: after ∧ c = Candidate.ofIndex joinCols index ∧
    0 < c.size ∧ (∀ other ∈ before, (Candidate.ofIndex joinCols other).size < c.size) ∧
    ∀ other ∈ after, (Candidate.ofIndex joinCols other).size ≤ c.size

/-- What is kept of the candidate so far and the next index. -/
def keep (joinCols : List ColumnId) (best : Option Candidate) (index : Index) : Option Candidate :=
  let c := Candidate.ofIndex joinCols index
  if best.elim 0 Candidate.size < c.size then some c else best

variable {joinCols : List ColumnId} {best : Option Candidate} {c : Candidate}

theorem keep_of_size_le {index : Index}
    (h : (Candidate.ofIndex joinCols index).size ≤ best.elim 0 Candidate.size) :
    keep joinCols best index = best :=
  if_neg (Nat.not_lt_of_le h)

theorem keep_of_size_lt {index : Index}
    (h : best.elim 0 Candidate.size < (Candidate.ofIndex joinCols index).size) :
    keep joinCols best index = some (Candidate.ofIndex joinCols index) :=
  if_pos h

theorem elim_keep (best : Option Candidate) (index : Index) :
    (keep joinCols best index).elim 0 Candidate.size =
      max (best.elim 0 Candidate.size) (Candidate.ofIndex joinCols index).size := by
  rcases Nat.lt_or_ge (best.elim 0 Candidate.size) (Candidate.ofIndex joinCols index).size with better | worse
  · rw [keep_of_size_lt better, Nat.max_eq_right (Nat.le_of_lt better), Option.elim_some]
  · rw [keep_of_size_le worse, Nat.max_eq_left worse]

theorem keep_eq_none_iff {index : Index} :
    keep joinCols best index = none ↔ best = none ∧ (Candidate.ofIndex joinCols index).size = 0 := by
  by_cases better : best.elim 0 Candidate.size < (Candidate.ofIndex joinCols index).size
  · rw [keep_of_size_lt better]
    exact iff_of_false nofun fun none => Nat.ne_zero_of_lt better none.2
  · have worse := Nat.le_of_not_lt better
    rw [keep_of_size_le worse]
    refine (and_iff_left_of_imp ?_).symm
    rintro rfl
    exact Nat.le_zero.1 worse

/-- What is kept in the end is the candidate at the start, if no index is better, or the first of the
indexes that match the most. -/
theorem foldl_keep_eq_some_iff {indexes : List Index} :
    indexes.foldl (keep joinCols) best = some c ↔
      (best = some c ∧ ∀ other ∈ indexes, (Candidate.ofIndex joinCols other).size ≤ c.size) ∨
      ∃ before index after, indexes = before ++ index :: after ∧ c = Candidate.ofIndex joinCols index ∧
        best.elim 0 Candidate.size < c.size ∧
        (∀ other ∈ before, (Candidate.ofIndex joinCols other).size < c.size) ∧
        ∀ other ∈ after, (Candidate.ofIndex joinCols other).size ≤ c.size := by
  induction indexes generalizing best with
  | nil => simp
  | cons index rest ih =>
    rw [List.foldl_cons, ih, elim_keep]
    constructor
    · rintro (⟨kept, later⟩ | ⟨before, other, after, rfl, rfl, better, earlier, later⟩)
      · by_cases better : best.elim 0 Candidate.size < (Candidate.ofIndex joinCols index).size
        · obtain rfl := Option.some.inj ((keep_of_size_lt better).symm.trans kept)
          exact .inr ⟨[], index, rest, rfl, rfl, better, nofun, later⟩
        · have worse := Nat.le_of_not_lt better
          rw [keep_of_size_le worse] at kept
          subst kept
          exact .inl ⟨rfl, List.forall_mem_cons.2 ⟨worse, later⟩⟩
      · obtain ⟨start, here⟩ := Nat.max_lt.1 better
        exact .inr ⟨index :: before, other, after, rfl, rfl, start,
          List.forall_mem_cons.2 ⟨here, earlier⟩, later⟩
    · rintro (⟨rfl, others⟩ | ⟨before, other, after, split, rfl, start, earlier, later⟩)
      · obtain ⟨here, later⟩ := List.forall_mem_cons.1 others
        exact .inl ⟨keep_of_size_le here, later⟩
      · cases before with
        | nil =>
          obtain ⟨rfl, rfl⟩ := List.cons.inj split
          exact .inl ⟨keep_of_size_lt start, later⟩
        | cons first before =>
          obtain ⟨rfl, rfl⟩ := List.cons.inj split
          obtain ⟨here, earlier⟩ := List.forall_mem_cons.1 earlier
          exact .inr ⟨before, other, after, rfl, rfl, Nat.max_lt.2 ⟨start, here⟩, earlier, later⟩

theorem size_le_joinKeys (joinCols : List ColumnId) (index : Index) :
    (Candidate.ofIndex joinCols index).size ≤ joinCols.length :=
  KeyAssignment.length_ofKeys_le_joinKeys _ _

/-- A selection chooses what is kept in the end, whether it exits early or not. -/
theorem choice_resume (earlyExit : Bool) (best : Option Candidate) (indexes : List Index) :
    (resume joinCols earlyExit best indexes).choice = indexes.foldl (keep joinCols) best := by
  induction indexes generalizing best with
  | nil => rfl
  | cons index rest ih =>
    rw [List.foldl_cons]
    simp only [resume]
    split
    · next better =>
      rw [keep_of_size_lt better]
      split
      · next full =>
        -- The indexes that are not looked at match no more join keys than there are.
        simp only [Bool.and_eq_true, decide_eq_true_eq] at full
        have most : ∀ other ∈ rest, (Candidate.ofIndex joinCols other).size ≤ _ :=
          fun other _ => full.1 ▸ size_le_joinKeys joinCols other
        exact (foldl_keep_eq_some_iff.2 (.inl ⟨rfl, most⟩)).symm
      · exact ih _
    · next worse =>
      rw [keep_of_size_le (Nat.le_of_not_lt worse)]
      exact ih best

/-- The choice is the first longest match. -/
theorem choice_eq_some_iff {indexes : List Index} {earlyExit : Bool} :
    (ofIndexes indexes joinCols earlyExit).choice = some c ↔ FirstLongest joinCols indexes c := by
  rw [ofIndexes, choice_resume, foldl_keep_eq_some_iff]
  simp [FirstLongest]

/-- Exiting early does not change the choice. -/
theorem choice_earlyExit (indexes : List Index) (joinCols : List ColumnId) (earlyExit : Bool) :
    (ofIndexes indexes joinCols earlyExit).choice = (ofIndexes indexes joinCols false).choice := by
  rw [ofIndexes, ofIndexes, choice_resume, choice_resume]

/-- The choice is an index that was offered, together with its assignment. -/
theorem exists_of_choice {indexes : List Index} {earlyExit : Bool}
    (h : (ofIndexes indexes joinCols earlyExit).choice = some c) :
    c.index ∈ indexes ∧ c.assignment = .ofKeys c.index.keys joinCols := by
  obtain ⟨before, index, after, rfl, rfl, -⟩ := choice_eq_some_iff.1 h
  exact ⟨by simp [Candidate.ofIndex], rfl⟩

/-- No index offered matches more join keys than the one chosen. -/
theorem size_le_of_choice {indexes : List Index} {earlyExit : Bool}
    (h : (ofIndexes indexes joinCols earlyExit).choice = some c) {index : Index} (mem : index ∈ indexes) :
    (Candidate.ofIndex joinCols index).size ≤ c.size := by
  obtain ⟨before, chosen, after, rfl, rfl, -, earlier, later⟩ := choice_eq_some_iff.1 h
  rcases List.mem_append.1 mem with mem | mem
  · exact Nat.le_of_lt (earlier index mem)
  · rcases List.mem_cons.1 mem with rfl | mem
    · exact Nat.le_refl _
    · exact later index mem

theorem foldl_keep_eq_none_iff {indexes : List Index} :
    indexes.foldl (keep joinCols) best = none ↔
      best = none ∧ ∀ index ∈ indexes, (Candidate.ofIndex joinCols index).size = 0 := by
  induction indexes generalizing best with
  | nil => simp
  | cons index rest ih =>
    rw [List.foldl_cons, ih, List.forall_mem_cons, keep_eq_none_iff, and_assoc]

/-- No index is chosen exactly if none of those offered leads with a join column. -/
theorem choice_eq_none_iff {indexes : List Index} {earlyExit : Bool} :
    (ofIndexes indexes joinCols earlyExit).choice = none ↔
      ∀ index ∈ indexes, ∀ key ∈ index.keys.head?, key ∉ joinCols := by
  rw [ofIndexes, choice_resume, foldl_keep_eq_none_iff]
  simp only [true_and, Candidate.size, Candidate.ofIndex, List.length_eq_zero_iff,
    KeyAssignment.ofKeys_eq_nil_iff]

end Selection

end QueryPlan
