import QueryPlan.Proofs.KeyColumns

/-!
# The prescribed search keys

Search keys can be built for any join keys, any left row and any assignment, checked or not. Either
some entry of the assignment is unusable, and then the first one that is gets reported, or the plan is
exactly the prescribed one: a distinct sort of the matched right fields, all of them cast to the types
of the left fields if any two types differ, of the rows in which none of these fields is null
(`SearchKey.outcome_plan`).
-/
namespace QueryPlan

/-- The terms of a conjunction; anything else is a single condition. -/
def Scalar.conditions : Scalar → List Scalar
  | .conj terms => terms
  | e => [e]

namespace SearchKey

section

variable (lhsKeys rhsKeys : ColumnList) (lhsRow rhsRow : RowType)

/-- Join key `i` compares the field `left` of the left row with the field `right` of the right row, which
is at the position `pos`. -/
structure Compares (i : Nat) (left : Field) (pos : Nat) (right : Field) : Prop where
  exists_left : ∃ l, lhsKeys[i]? = some l ∧ lhsRow[l.toNat]? = some left
  exists_right : ∃ r, rhsKeys[i]? = some r ∧ r.toNat = pos ∧ rhsRow[pos]? = some right

/-- What is reported of a join key that is missing on a side or is no field of its side; of several faults
the first one here. -/
inductive Unusable (i : Nat) : PlanError → Prop
  | unpaired (missing : lhsKeys.length ≤ i ∨ rhsKeys.length ≤ i) :
      Unusable i (.fieldOutOfRange i (min lhsKeys.length rhsKeys.length))
  | left {l r : ColumnId} (hl : lhsKeys[i]? = some l) (hr : rhsKeys[i]? = some r)
      (outside : lhsRow.length ≤ l.toNat) : Unusable i (.fieldOutOfRange l.toNat lhsRow.length)
  | right {l r : ColumnId} (hl : lhsKeys[i]? = some l) (hr : rhsKeys[i]? = some r)
      (inside : l.toNat < lhsRow.length) (outside : rhsRow.length ≤ r.toNat) :
      Unusable i (.fieldOutOfRange r.toNat rhsRow.length)

/-- Some of the join keys that the assignment selects compares fields of different types. -/
def Mismatched (a : KeyAssignment) : Prop :=
  ∃ i ∈ a, ∃ left pos right, Compares lhsKeys rhsKeys lhsRow rhsRow i left pos right ∧
    right.type ≠ left.type

/-- `Lists a P xs`: entry by entry, what the join keys of the assignment compare has the property `P`
together with the elements of `xs`. -/
def Lists {α : Type} (a : KeyAssignment) (P : Field → Nat → Field → α → Prop) (xs : List α) : Prop :=
  List.Forall₂ (fun i x => ∃ left pos right, Compares lhsKeys rhsKeys lhsRow rhsRow i left pos right ∧
    P left pos right x) a xs

end

section

variable (lhsKeys rhsKeys : ColumnList) (lhsRow : RowType) (rhs : Plan)

/-- The rows of the right side in which none of the raw fields that are compared is null; without join
keys, the right side itself. -/
inductive NullsDiscarded (a : KeyAssignment) : Plan → Prop
  | unfiltered (empty : a = []) : NullsDiscarded a rhs
  | filtered {k : NodeId} {predicate : Scalar} (nonempty : a ≠ [])
      (conditions : Lists lhsKeys rhsKeys lhsRow rhs.rowType a
        (fun _ pos right e => e = .isNotNull (.field pos right.type)) predicate.conditions) :
      NullsDiscarded a (.node k (.filter predicate) [rhs])

/-- The plan that search keys for the assignment should have. Its columns carry the names of the right
fields. If any two types differ, all of them are cast. -/
inductive Prescribed (a : KeyAssignment) : Plan → Prop
  | intro {i j : NodeId} {fields : List Projection} {input : Plan}
      (discarded : NullsDiscarded lhsKeys rhsKeys lhsRow rhs a input)
      (cast : Mismatched lhsKeys rhsKeys lhsRow rhs.rowType a →
        Lists lhsKeys rhsKeys lhsRow rhs.rowType a
          (fun left pos right f => f = ⟨right.name, .cast (.field pos right.type) left.type⟩) fields)
      (raw : ¬Mismatched lhsKeys rhsKeys lhsRow rhs.rowType a →
        Lists lhsKeys rhsKeys lhsRow rhs.rowType a
          (fun _ pos right f => f = ⟨right.name, .field pos right.type⟩) fields) :
      Prescribed a (.node i (.sort (.iota a.length) true) [.node j (.project fields) [input]])

end

variable {lhsKeys rhsKeys : ColumnList} {lhsRow rhsRow : RowType} {a : KeyAssignment}
  {keys : List SearchKey}

theorem ofJoinKey_eq_ok_iff_compares {i : Nat} {k : SearchKey} :
    ofJoinKey lhsKeys rhsKeys lhsRow rhsRow i = .ok k ↔
      Compares lhsKeys rhsKeys lhsRow rhsRow i k.left k.pos k.field := by
  rw [ofJoinKey_eq_ok_iff]
  constructor
  · rintro ⟨l, r, left, right, hl, hr, hleft, hright, rfl⟩
    exact ⟨⟨l, hl, hleft⟩, ⟨r, hr, rfl, hright⟩⟩
  · obtain ⟨pos, field, left⟩ := k
    rintro ⟨⟨l, hl, hleft⟩, ⟨r, hr, rfl, hright⟩⟩
    exact ⟨l, r, left, field, hl, hr, hleft, hright, rfl⟩

theorem ofJoinKey_eq_error_iff {i : Nat} {e : PlanError} :
    ofJoinKey lhsKeys rhsKeys lhsRow rhsRow i = .error e ↔ Unusable lhsKeys rhsKeys lhsRow rhsRow i e := by
  constructor
  · intro h
    unfold ofJoinKey at h
    split at h
    · next l r hl hr =>
      unfold RowType.field at h
      cases hleft : lhsRow[l.toNat]? with
      | none =>
        simp only [hleft, bind, Except.bind] at h
        cases h
        exact .left hl hr (List.getElem?_eq_none_iff.1 hleft)
      | some left =>
        cases hright : rhsRow[r.toNat]? with
        | none =>
          simp only [hleft, hright, bind, Except.bind] at h
          cases h
          exact .right hl hr (List.getElem?_eq_some_iff.1 hleft).1 (List.getElem?_eq_none_iff.1 hright)
        | some right =>
          simp only [hleft, hright, bind, Except.bind] at h
          cases h
    · next missing =>
      cases h
      refine .unpaired ?_
      by_contra both
      obtain ⟨left, right⟩ : i < lhsKeys.length ∧ i < rhsKeys.length := by omega
      exact missing _ _ (List.getElem?_eq_getElem left) (List.getElem?_eq_getElem right)
  · intro h
    cases h with
    | unpaired missing =>
      unfold ofJoinKey
      split
      · next hl hr =>
        have left := (List.getElem?_eq_some_iff.1 hl).1
        have right := (List.getElem?_eq_some_iff.1 hr).1
        omega
      · rfl
    | left hl hr outside =>
      simp [ofJoinKey, RowType.field, hl, hr, List.getElem?_eq_none_iff.2 outside, bind, Except.bind]
    | right hl hr inside outside =>
      simp [ofJoinKey, RowType.field, hl, hr, List.getElem?_eq_getElem inside,
        List.getElem?_eq_none_iff.2 outside, bind, Except.bind]

/-- A fault is reported exactly if it is that of the first unusable join key. -/
theorem mapM_ofJoinKey_eq_error_iff {e : PlanError} :
    a.mapM (ofJoinKey lhsKeys rhsKeys lhsRow rhsRow) = .error e ↔
      ∃ before i after, a = before ++ i :: after ∧
        (∀ j ∈ before, ∀ e', ¬Unusable lhsKeys rhsKeys lhsRow rhsRow j e') ∧
        Unusable lhsKeys rhsKeys lhsRow rhsRow i e := by
  simp only [mapM_eq_error_iff, ne_eq, ofJoinKey_eq_error_iff]

theorem exists_mapM_ofJoinKey_iff :
    (∃ keys, a.mapM (ofJoinKey lhsKeys rhsKeys lhsRow rhsRow) = .ok keys) ↔
      ∀ i ∈ a, ∀ e, ¬Unusable lhsKeys rhsKeys lhsRow rhsRow i e := by
  simp only [← ofJoinKey_eq_error_iff]
  constructor
  · rintro ⟨keys, keyed⟩ i hi e failed
    obtain ⟨k, -, hk⟩ := exists_right_of_forall₂ (mapM_eq_ok_iff.1 keyed) hi
    cases failed.symm.trans hk
  · intro sound
    refine exists_mapM_eq_ok fun i hi => ?_
    cases h : ofJoinKey lhsKeys rhsKeys lhsRow rhsRow i with
    | ok k => exact ⟨k, rfl⟩
    | error e => exact absurd h (sound i hi e)

/-! ## The parts of the plan -/

/-- What is computed from the search keys lists what is computed from the fields compared. -/
theorem lists_map {α : Type} {P : Field → Nat → Field → α → Prop} {f : SearchKey → α}
    (keyed : a.mapM (ofJoinKey lhsKeys rhsKeys lhsRow rhsRow) = .ok keys)
    (each : ∀ left pos right, P left pos right (f ⟨pos, right, left⟩)) :
    Lists lhsKeys rhsKeys lhsRow rhsRow a P (keys.map f) := by
  refine List.forall₂_map_right_iff.2 ((mapM_eq_ok_iff.1 keyed).imp fun i k h => ?_)
  exact ⟨k.left, k.pos, k.field, ofJoinKey_eq_ok_iff_compares.1 h, each k.left k.pos k.field⟩

theorem any_needsCast_iff (keyed : a.mapM (ofJoinKey lhsKeys rhsKeys lhsRow rhsRow) = .ok keys) :
    keys.any needsCast = true ↔ Mismatched lhsKeys rhsKeys lhsRow rhsRow a := by
  have selected := mapM_eq_ok_iff.1 keyed
  rw [List.any_eq_true]
  constructor
  · rintro ⟨k, hk, differs⟩
    obtain ⟨i, hi, h⟩ := exists_left_of_forall₂ selected hk
    refine ⟨i, hi, k.left, k.pos, k.field, ofJoinKey_eq_ok_iff_compares.1 h, ?_⟩
    simpa [needsCast, target] using differs
  · rintro ⟨i, hi, left, pos, right, compares, differs⟩
    obtain ⟨k, hk, h⟩ := exists_right_of_forall₂ selected hi
    -- A join key has one search key, so this is the one that was selected for it.
    have here : ofJoinKey lhsKeys rhsKeys lhsRow rhsRow i = .ok ⟨pos, right, left⟩ :=
      ofJoinKey_eq_ok_iff_compares.2 compares
    obtain rfl : k = ⟨pos, right, left⟩ := Except.ok.inj (h.symm.trans here)
    exact ⟨_, hk, by simpa [needsCast] using differs⟩

theorem notNull?_eq_none_iff : notNull? keys = none ↔ keys = [] := by
  rcases keys with _ | ⟨k, _ | ⟨k', keys⟩⟩ <;> simp [notNull?]

theorem conditions_of_notNull? {e : Scalar} (h : notNull? keys = some e) :
    e.conditions = keys.map fun k => .isNotNull k.raw := by
  rcases keys with _ | ⟨k, _ | ⟨k', keys⟩⟩
  · cases h
  · cases h
    rfl
  · cases h
    simp [Scalar.conditions]

theorem eq_nil_iff_of_mapM (keyed : a.mapM (ofJoinKey lhsKeys rhsKeys lhsRow rhsRow) = .ok keys) :
    keys = [] ↔ a = [] := by
  rw [← List.length_eq_zero_iff, ← List.length_eq_zero_iff, (mapM_eq_ok_iff.1 keyed).length_eq]

variable {rhs p : Plan}

theorem nullsDiscarded_filter {k : NodeId} {e : Scalar}
    (keyed : a.mapM (ofJoinKey lhsKeys rhsKeys lhsRow rhs.rowType) = .ok keys)
    (some : notNull? keys = some e) :
    NullsDiscarded lhsKeys rhsKeys lhsRow rhs a (.node k (.filter e) [rhs]) := by
  refine .filtered (fun empty => ?_) ?_
  · rw [notNull?_eq_none_iff.2 ((eq_nil_iff_of_mapM keyed).2 empty)] at some
    cases some
  · rw [conditions_of_notNull? some]
    exact lists_map keyed fun _ _ _ => rfl

/-- The plans of search keys are the prescribed ones. -/
theorem KeyPlan.prescribed (h : KeyPlan keys rhs p)
    (keyed : a.mapM (ofJoinKey lhsKeys rhsKeys lhsRow rhs.rowType) = .ok keys) :
    Prescribed lhsKeys rhsKeys lhsRow rhs a p := by
  have length : keys.length = a.length := (mapM_eq_ok_iff.1 keyed).length_eq.symm
  have cast (differ : Mismatched lhsKeys rhsKeys lhsRow rhs.rowType a) :
      Lists lhsKeys rhsKeys lhsRow rhs.rowType a
        (fun left pos right f => f = ⟨right.name, .cast (.field pos right.type) left.type⟩)
        (projections keys) := by
    rw [projections, if_pos ((any_needsCast_iff keyed).2 differ)]
    exact lists_map keyed fun _ _ _ => rfl
  have raw (agree : ¬Mismatched lhsKeys rhsKeys lhsRow rhs.rowType a) :
      Lists lhsKeys rhsKeys lhsRow rhs.rowType a
        (fun _ pos right f => f = ⟨right.name, .field pos right.type⟩) (projections keys) := by
    rw [projections, if_neg (mt (any_needsCast_iff keyed).1 agree)]
    exact lists_map keyed fun _ _ _ => rfl
  cases h with
  | unfiltered none =>
    rw [length]
    exact .intro (.unfiltered ((eq_nil_iff_of_mapM keyed).1 (notNull?_eq_none_iff.1 none))) cast raw
  | filtered some =>
    rw [length]
    exact .intro (nullsDiscarded_filter keyed some) cast raw

theorem ends_plan_of_error {e : PlanError}
    (failed : a.mapM (ofJoinKey lhsKeys rhsKeys lhsRow rhs.rowType) = .error e) :
    (plan lhsKeys rhsKeys lhsRow rhs a).Ends (· = .error e) := by
  rw [plan_eq, failed]
  exact Planner.ends_error_bind Planner.ends_ofExcept rfl

theorem ends_plan_of_ok (keyed : a.mapM (ofJoinKey lhsKeys rhsKeys lhsRow rhs.rowType) = .ok keys) :
    (plan lhsKeys rhsKeys lhsRow rhs a).Ends fun result => ∃ p, result = .ok p ∧ KeyPlan keys rhs p := by
  intro w
  obtain ⟨p, v, returned⟩ := succeeds_plan keyed w
  obtain ⟨keys', keyed', searched⟩ := yields_plan returned.yields
  obtain rfl : keys = keys' := Except.ok.inj (keyed.symm.trans keyed')
  exact ⟨p, congrArg Prod.fst returned, searched⟩

/-- Building search keys fails exactly if some entry of the assignment is unusable, and it reports the
first such entry; the assertions that the lists paired for casts have one length never fail. Otherwise it
returns the prescribed plan, whose columns have the types of the left fields. -/
theorem outcome_plan (lhsKeys rhsKeys : ColumnList) (lhsRow : RowType) (rhs : Plan) (a : KeyAssignment)
    (w : Workspace) :
    (∀ e, ((plan lhsKeys rhsKeys lhsRow rhs a).outcome w).1 = .error e ↔
      ∃ before i after, a = before ++ i :: after ∧
        (∀ j ∈ before, ∀ e', ¬Unusable lhsKeys rhsKeys lhsRow rhs.rowType j e') ∧
        Unusable lhsKeys rhsKeys lhsRow rhs.rowType i e) ∧
    (∀ cause, ((plan lhsKeys rhsKeys lhsRow rhs a).outcome w).1 ≠ .error (.assertion cause)) ∧
    ((∃ p, ((plan lhsKeys rhsKeys lhsRow rhs a).outcome w).1 = .ok p) ↔
      ∀ i ∈ a, ∀ e, ¬Unusable lhsKeys rhsKeys lhsRow rhs.rowType i e) ∧
    ∀ p, ((plan lhsKeys rhsKeys lhsRow rhs a).outcome w).1 = .ok p →
      Prescribed lhsKeys rhsKeys lhsRow rhs a p ∧
      Lists lhsKeys rhsKeys lhsRow rhs.rowType a
        (fun left _ right column => column = ⟨right.name, left.type⟩) p.rowType := by
  have fails (e : PlanError) : ((plan lhsKeys rhsKeys lhsRow rhs a).outcome w).1 = .error e ↔
      a.mapM (ofJoinKey lhsKeys rhsKeys lhsRow rhs.rowType) = .error e := by
    cases keyed : a.mapM (ofJoinKey lhsKeys rhsKeys lhsRow rhs.rowType) with
    | error e' => rw [ends_plan_of_error keyed w, Except.error.injEq, Except.error.injEq]
    | ok keys =>
      obtain ⟨q, returned, -⟩ := ends_plan_of_ok keyed w
      simp [returned]
  refine ⟨fun e => (fails e).trans mapM_ofJoinKey_eq_error_iff, fun cause failed => ?_, ?_, fun p built => ?_⟩
  · obtain ⟨before, i, after, -, -, unusable⟩ := mapM_ofJoinKey_eq_error_iff.1 ((fails _).1 failed)
    cases unusable
  · rw [← exists_mapM_ofJoinKey_iff]
    cases keyed : a.mapM (ofJoinKey lhsKeys rhsKeys lhsRow rhs.rowType) with
    | error e => simp [ends_plan_of_error keyed w]
    | ok keys =>
      obtain ⟨q, returned, -⟩ := ends_plan_of_ok keyed w
      exact iff_of_true ⟨q, returned⟩ ⟨keys, rfl⟩
  · cases keyed : a.mapM (ofJoinKey lhsKeys rhsKeys lhsRow rhs.rowType) with
    | error e => cases (ends_plan_of_error keyed w).symm.trans built
    | ok keys =>
      obtain ⟨q, returned, searched⟩ := ends_plan_of_ok keyed w
      obtain rfl : p = q := Except.ok.inj (built.symm.trans returned)
      refine ⟨searched.prescribed keyed, ?_⟩
      rw [searched.rowType_eq]
      exact lists_map keyed fun _ _ _ => rfl

/-- A number and a name, the keys of which are compared with pairs of numbers. -/
def labelRow : RowType := [⟨"number", .bigint⟩, ⟨"name", .varchar 10⟩]

/-- The name is compared with a number, so both keys are cast. An assignment is refused for its first
unusable entry. -/
theorem outcome_plan_labelRow :
    Mismatched (.ofNats [0, 1]) (.ofNats [1, 0]) labelRow Plan.morePairs.rowType [1, 0] ∧
    (∃ p, ((plan (.ofNats [0, 1]) (.ofNats [1, 0]) labelRow Plan.morePairs
        [1, 0]).outcome {}).1 = .ok p ∧
      Prescribed (.ofNats [0, 1]) (.ofNats [1, 0]) labelRow Plan.morePairs [1, 0] p) ∧
    ((plan (.ofNats [0, 1]) (.ofNats [1, 0]) labelRow Plan.morePairs
      [0, 5, 7]).outcome {}).1 = .error (.fieldOutOfRange 5 2) := by
  refine ⟨?_, ?_, ?_⟩
  · exact ⟨1, by decide, ⟨"name", .varchar 10⟩, 0, ⟨"first", .bigint⟩,
      ⟨⟨.ofNat 1, rfl, rfl⟩, ⟨.ofNat 0, rfl, rfl, rfl⟩⟩, by decide⟩
  · obtain ⟨-, -, built, prescribed⟩ := outcome_plan (.ofNats [0, 1]) (.ofNats [1, 0]) labelRow
      Plan.morePairs [1, 0] {}
    obtain ⟨p, result⟩ := built.2 (exists_mapM_ofJoinKey_iff.1 ⟨_, rfl⟩)
    exact ⟨p, result, (prescribed p result).1⟩
  · obtain ⟨fails, -⟩ := outcome_plan (.ofNats [0, 1]) (.ofNats [1, 0]) labelRow
      Plan.morePairs [0, 5, 7] {}
    have before : ∀ i ∈ [0], ∀ e,
        ¬Unusable (.ofNats [0, 1]) (.ofNats [1, 0]) labelRow Plan.morePairs.rowType i e :=
      exists_mapM_ofJoinKey_iff.1 ⟨_, rfl⟩
    exact (fails _).2 ⟨[0], 5, [7], rfl, before, .unpaired (.inl (by decide))⟩

end SearchKey

end QueryPlan
