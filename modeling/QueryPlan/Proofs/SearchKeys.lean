import QueryPlan.Proofs.Parameters
import QueryPlan.Proofs.Typing
import QueryPlan.SearchKey

/-!
# The plan of the search keys

What is collected of the matched keys are the parts of one list of search keys (`KeyLists.collect_eq`). So the
lists that are paired for casts have one length, and the assertions that they do never fail
(`KeyLists.cast_ofKeys`). The search keys are a distinct sort of a projection of the right side without the
rows in which a matched field is null. If every matched position is a field of both sides, the plan is built
and its expressions are well typed; nothing else can go wrong.
-/
namespace QueryPlan

/-- One column of the search keys: a field of the right side and the left field it is compared with. -/
structure SearchKey where
  pos : Nat
  field : Field
  left : Field
deriving DecidableEq

namespace SearchKey

/-- The search key for join key `i`. -/
def ofJoinKey (lhsKeys rhsKeys : ColumnList) (lhsRow rhsRow : RowType) (i : Nat) :
    Except PlanError SearchKey :=
  match lhsKeys[i]?, rhsKeys[i]? with
  | some l, some r => do
    let left ← lhsRow.field l.toNat
    let field ← rhsRow.field r.toNat
    return ⟨r.toNat, field, left⟩
  | _, _ => .error (.fieldOutOfRange i (min lhsKeys.length rhsKeys.length))

/-- The type of the left field. -/
def target (k : SearchKey) : SqlType := k.left.type

@[simp] theorem target_mk (pos : Nat) (field left : Field) : target ⟨pos, field, left⟩ = left.type := rfl

def needsCast (k : SearchKey) : Bool := k.field.type != k.target

/-- The raw field of the right side. -/
def raw (k : SearchKey) : Scalar := .field k.pos k.field.type

/-- The computed column before any cast. -/
def column (k : SearchKey) : Projection := ⟨k.field.name, k.raw⟩

@[simp] theorem name_column (k : SearchKey) : k.column.name = k.field.name := rfl

@[simp] theorem expr_column (k : SearchKey) : k.column.expr = k.raw := rfl

/-- The computed columns: all of them cast, or none. -/
def projections (keys : List SearchKey) : List Projection :=
  if keys.any needsCast then keys.map fun k => ⟨k.field.name, .cast k.raw k.target⟩
  else keys.map column

end SearchKey

namespace KeyLists

open SearchKey

variable {lhsKeys rhsKeys : ColumnList} {lhsRow rhsRow : RowType}

/-- The lists with what belongs to further keys. -/
def append (lists : KeyLists) (keys : List SearchKey) : KeyLists where
  positions := lists.positions ++ (keys.map pos).toArray
  fields := lists.fields ++ (keys.map column).toArray
  types := lists.types ++ (keys.map target).toArray
  names := lists.names ++ (keys.map (·.left.name)).toArray
  castRequired := lists.castRequired || keys.any needsCast

def ofKeys (keys : List SearchKey) : KeyLists := append {} keys

theorem append_nil (lists : KeyLists) : lists.append [] = lists := by
  simp [append]

theorem append_cons (lists : KeyLists) (k : SearchKey) (keys : List SearchKey) :
    (lists.append [k]).append keys = lists.append (k :: keys) := by
  simp [append, Bool.or_assoc]

/-- One turn of the loop adds the parts of one search key. -/
theorem push_eq (lists : KeyLists) (i : Nat) :
    lists.push lhsKeys rhsKeys lhsRow rhsRow i =
      (fun k => lists.append [k]) <$> ofJoinKey lhsKeys rhsKeys lhsRow rhsRow i := by
  unfold push ofJoinKey Scalar.ofField RowType.field
  cases lhsKeys[i]? with
  | none => rfl
  | some l =>
    cases rhsKeys[i]? with
    | none => rfl
    | some r =>
      cases left : lhsRow[l.toNat]? with
      | none => simp [left, bind, Except.bind, Functor.map, Except.map]
      | some f =>
        cases right : rhsRow[r.toNat]? with
        | none => simp [left, right, bind, Except.bind, Functor.map, Except.map]
        | some g =>
          have name : (rhsRow.name? r.toNat).getD "" = g.name := by simp [RowType.name?, right]
          simp [left, right, name, bind, Except.bind, pure, Except.pure, Functor.map, Except.map, append, column, raw,
            needsCast, Scalar.type]

/-- The lists that are collected are the parts of the search keys of the assignment. -/
theorem collect_eq (a : KeyAssignment) :
    collect lhsKeys rhsKeys lhsRow rhsRow a = ofKeys <$> a.mapM (ofJoinKey lhsKeys rhsKeys lhsRow rhsRow) := by
  suffices ∀ lists : KeyLists, a.foldlM (push lhsKeys rhsKeys lhsRow rhsRow) lists =
      lists.append <$> a.mapM (ofJoinKey lhsKeys rhsKeys lhsRow rhsRow) from this {}
  induction a with
  | nil => exact fun lists => congrArg Except.ok lists.append_nil.symm
  | cons i a ih =>
    intro lists
    rw [List.foldlM_cons, List.mapM_cons, push_eq]
    cases ofJoinKey lhsKeys rhsKeys lhsRow rhsRow i with
    | error e => rfl
    | ok k =>
      change a.foldlM (push lhsKeys rhsKeys lhsRow rhsRow) (lists.append [k]) = _
      rw [ih]
      cases a.mapM (ofJoinKey lhsKeys rhsKeys lhsRow rhsRow) with
      | error e => rfl
      | ok keys => exact congrArg Except.ok (lists.append_cons k keys)

section

variable (keys : List SearchKey)

@[simp] theorem positions_ofKeys : (ofKeys keys).positions.toList = keys.map pos := by simp [ofKeys, append]

@[simp] theorem fields_ofKeys : (ofKeys keys).fields.toList = keys.map column := by simp [ofKeys, append]

@[simp] theorem types_ofKeys : (ofKeys keys).types.toList = keys.map target := by simp [ofKeys, append]

@[simp] theorem names_ofKeys : (ofKeys keys).names.toList = keys.map (·.left.name) := by simp [ofKeys, append]

@[simp] theorem castRequired_ofKeys : (ofKeys keys).castRequired = keys.any needsCast := by simp [ofKeys, append]

end

variable {keys : List SearchKey}

/-- There are as many types as names, and each type meets the name of its own field. -/
theorem ofParts_eq_ok : RowType.ofParts (keys.map target) (keys.map (·.left.name)) = .ok (keys.map left) := by
  rw [RowType.ofParts, if_pos (by simp), List.zipWith_map, List.zipWith_self]
  rfl

/-- There are as many targets as columns, and each column meets the target of its own key. -/
theorem castAll_eq_ok : Scalar.castAll (keys.map left) ((keys.map column).map Projection.expr) =
    .ok (keys.map fun k => .cast k.raw k.target) := by
  rw [Scalar.castAll, if_pos (by simp), List.map_map, List.zipWith_map, List.zipWith_self]
  rfl

theorem assign_columns (cast : keys.any needsCast = true) :
    assign (keys.map column) (keys.map fun k => .cast k.raw k.target) = projections keys := by
  rw [projections, if_pos cast]
  clear cast
  induction keys with
  | nil => rfl
  | cons k keys ih =>
    rw [List.map_cons, List.map_cons, List.map_cons, assign, ih]
    rfl

/-- Neither of the assertions fails, and the columns are those of the search keys. -/
theorem cast_ofKeys (cast : keys.any needsCast = true) :
    (ofKeys keys).cast = Planner.report (.keysCast (keys.map (·.field.type)) (keys.map target)) >>= fun _ =>
      pure (projections keys) := by
  have types : (keys.map column).map (·.expr.type) = keys.map (·.field.type) := by
    rw [List.map_map]
    rfl
  rw [KeyLists.cast, fields_ofKeys, types_ofKeys, names_ofKeys, types, ofParts_eq_ok]
  refine congrArg _ (funext fun _ => ?_)
  change (Planner.assert (Scalar.castAll (keys.map left) _) >>= fun exprs => pure (assign _ exprs)) = _
  rw [castAll_eq_ok, ← assign_columns cast]
  rfl

end KeyLists

namespace SearchKey

variable {lhsKeys rhsKeys : ColumnList} {lhsRow rhsRow row : RowType} {keys : List SearchKey}

theorem ofJoinKey_eq_ok_iff {i : Nat} {k : SearchKey} :
    ofJoinKey lhsKeys rhsKeys lhsRow rhsRow i = .ok k ↔
      ∃ l r left field, lhsKeys[i]? = some l ∧ rhsKeys[i]? = some r ∧ lhsRow[l.toNat]? = some left ∧
        rhsRow[r.toNat]? = some field ∧ k = ⟨r.toNat, field, left⟩ := by
  unfold ofJoinKey RowType.field
  cases lhsKeys[i]? with
  | none => simp
  | some l =>
    cases rhsKeys[i]? with
    | none => simp
    | some r =>
      cases hl : lhsRow[l.toNat]? <;> cases hr : rhsRow[r.toNat]? <;>
        simp [bind, Except.bind, pure, Except.pure, hl, hr, eq_comm]

/-- The key reads a field of the row and has the name and type of it. -/
def Reads (k : SearchKey) (row : RowType) : Prop := row[k.pos]? = some k.field

theorem reads_of_mapM {a : KeyAssignment}
    (h : a.mapM (ofJoinKey lhsKeys rhsKeys lhsRow rhsRow) = .ok keys) :
    ∀ k ∈ keys, k.Reads rhsRow := by
  intro k hk
  obtain ⟨i, -, hi⟩ := exists_left_of_forall₂ (mapM_eq_ok_iff.1 h) hk
  obtain ⟨l, r, target, field, -, -, -, hr, rfl⟩ := ofJoinKey_eq_ok_iff.1 hi
  exact hr

theorem Reads.typedIn_raw {k : SearchKey} (h : k.Reads row) : k.raw.TypedIn row := by
  simp only [raw, Scalar.typedIn_field, RowType.type?]
  rw [h, Option.map_some]

/-- The condition that no field read by a key is null; none if there is no key. -/
def notNull? (keys : List SearchKey) : Option Scalar :=
  match keys.map raw with
  | [] => none
  | [e] => some (.isNotNull e)
  | es => some (.conj (es.map .isNotNull))

theorem notNull?_eq_ok (h : ∀ k ∈ keys, k.Reads row) :
    Scalar.notNull? row (keys.map pos) = .ok (notNull? keys) := by
  have fields : (keys.map pos).mapM (Scalar.ofField row) = .ok (keys.map raw) := by
    rw [mapM_eq_ok_iff, List.forall₂_map_left_iff, List.forall₂_map_right_iff, List.forall₂_same]
    intro k hk
    have field : row[k.pos]? = some k.field := h k hk
    simp [Scalar.ofField, RowType.field, field, bind, Except.bind, pure,
      Except.pure, raw]
  unfold Scalar.notNull? notNull?
  rw [fields]
  rcases keys.map raw with _ | ⟨e, _ | ⟨e', es⟩⟩ <;> rfl

theorem typedIn_of_notNull? (h : ∀ k ∈ keys, k.Reads row) {e : Scalar} (he : notNull? keys = some e) :
    e.TypedIn row := by
  have raws : ∀ x ∈ keys.map raw, x.TypedIn row := by
    simp only [List.forall_mem_map]
    exact fun k hk => (h k hk).typedIn_raw
  unfold notNull? at he
  split at he
  · cases he
  · next x hx =>
    cases he
    simpa [hx] using raws
  · cases he
    simp only [Scalar.typedIn_conj, List.forall_mem_map, Scalar.typedIn_isNotNull]
    simpa using raws

theorem typedIn_of_mem_projections (h : ∀ k ∈ keys, k.Reads row) {f : Projection}
    (hf : f ∈ projections keys) :
    f.expr.TypedIn row := by
  unfold projections at hf
  split at hf
  · obtain ⟨k, hk, rfl⟩ := List.mem_map.1 hf
    exact Scalar.typedIn_cast.2 (h k hk).typedIn_raw
  · obtain ⟨k, hk, rfl⟩ := List.mem_map.1 hf
    exact (h k hk).typedIn_raw

@[simp] theorem length_projections (keys : List SearchKey) :
    (projections keys).length = keys.length := by
  unfold projections
  split <;> simp

/-- Without a cast every field has the type of the key it is compared with. -/
theorem type_eq_target {k : SearchKey} (uncast : ¬keys.any needsCast) (hk : k ∈ keys) :
    k.field.type = k.target := by
  by_contra ne
  exact uncast (List.any_eq_true.2 ⟨k, hk, by simpa [needsCast] using ne⟩)

/-- The plans of search keys over `rhs`, whatever the identities of their nodes. -/
inductive KeyPlan (keys : List SearchKey) (rhs : Plan) : Plan → Prop
  | unfiltered {i j : NodeId} (none : notNull? keys = none) :
      KeyPlan keys rhs
        (.node i (.sort (.iota keys.length) true) [.node j (.project (projections keys)) [rhs]])
  | filtered {i j k : NodeId} {e : Scalar} (some : notNull? keys = some e) :
      KeyPlan keys rhs (.node i (.sort (.iota keys.length) true)
        [.node j (.project (projections keys)) [.node k (.filter e) [rhs]]])

private theorem checkKeys_iota {row : RowType} {n : Nat} (h : row.length = n) :
    row.checkKeys (ColumnList.iota n) = .ok () := by
  refine RowType.checkKeys_eq_ok_iff.2 fun c hc => ?_
  obtain ⟨i, hi, rfl⟩ := List.mem_map.1 hc
  have wraps := Nat.mod_le i 65536
  have inside := List.mem_range.1 hi
  rw [ColumnId.toNat_ofNat]
  omega

variable {rhs : Plan} {a : KeyAssignment}

theorem yields_filterNulls (h : ∀ k ∈ keys, k.Reads rhs.rowType) {p : Plan}
    (hp : (rhs.filterNulls (keys.map pos)).Yields p) :
    notNull? keys = none ∧ p = rhs ∨ ∃ e i, notNull? keys = some e ∧ p = .node i (.filter e) [rhs] := by
  unfold Plan.filterNulls at hp
  obtain ⟨e?, he, hp⟩ := Planner.yields_bind hp
  rw [Planner.yields_ofExcept, notNull?_eq_ok h, Except.ok.injEq] at he
  cases e? with
  | none => exact .inl ⟨he, Planner.yields_pure.1 hp⟩
  | some e =>
    obtain ⟨-, i, rfl⟩ := Plan.yields_build hp
    exact .inr ⟨e, i, he, rfl⟩

theorem succeeds_filterNulls (h : ∀ k ∈ keys, k.Reads rhs.rowType) :
    (rhs.filterNulls (keys.map pos)).Succeeds := by
  unfold Plan.filterNulls
  apply (Planner.succeeds_ofExcept (notNull?_eq_ok h)).bind
  intro e? he
  rw [Planner.yields_ofExcept, notNull?_eq_ok h, Except.ok.injEq] at he
  cases e? with
  | none => exact Planner.succeeds_pure rhs
  | some e => exact Plan.succeeds_build (typedIn_of_notNull? h he).checkFields

/-- Builds the plan of given search keys. -/
def planOf (keys : List SearchKey) (rhs : Plan) : Planner Plan := do
  let filtered ← rhs.filterNulls (keys.map pos)
  let projected ← Plan.build (.project (projections keys)) [filtered]
  Plan.build (.sort (ColumnList.iota keys.length) true) [projected]

/-- Casts are reported before the keys are built. -/
theorem plan_eq :
    plan lhsKeys rhsKeys lhsRow rhs a =
      Planner.ofExcept (a.mapM (ofJoinKey lhsKeys rhsKeys lhsRow rhs.rowType)) >>= fun keys =>
        if keys.any needsCast then
          Planner.report (.keysCast (keys.map (·.field.type)) (keys.map target)) >>= fun _ => planOf keys rhs
        else planOf keys rhs := by
  unfold plan
  rw [KeyLists.collect_eq]
  cases keyed : a.mapM (ofJoinKey lhsKeys rhsKeys lhsRow rhs.rowType) with
  | error e => rfl
  | ok keys =>
    have length : a.length = keys.length := (mapM_eq_ok_iff.1 keyed).length_eq
    have collected : Planner.ofExcept (KeyLists.ofKeys <$> Except.ok keys) = pure (KeyLists.ofKeys keys) := rfl
    have selected : Planner.ofExcept (Except.ok keys) = pure keys := rfl
    rw [collected, selected, pure_bind, pure_bind, KeyLists.castRequired_ofKeys, KeyLists.positions_ofKeys,
      KeyLists.fields_ofKeys, length]
    split
    · next cast =>
      rw [KeyLists.cast_ofKeys cast, bind_assoc]
      rfl
    · next uncast =>
      rw [← show projections keys = keys.map column from if_neg uncast]
      rfl

theorem yields_planOf (h : ∀ k ∈ keys, k.Reads rhs.rowType) {p : Plan}
    (hp : (planOf keys rhs).Yields p) :
    KeyPlan keys rhs p := by
  obtain ⟨filtered, hfiltered, hp⟩ := Planner.yields_bind hp
  obtain ⟨projected, hprojected, hp⟩ := Planner.yields_bind hp
  obtain ⟨-, i, rfl⟩ := Plan.yields_build hp
  obtain ⟨-, j, rfl⟩ := Plan.yields_build hprojected
  obtain ⟨none, rfl⟩ | ⟨e, k, some, rfl⟩ := yields_filterNulls h hfiltered
  · exact .unfiltered none
  · exact .filtered some

theorem succeeds_planOf (h : ∀ k ∈ keys, k.Reads rhs.rowType) : (planOf keys rhs).Succeeds := by
  apply (succeeds_filterNulls h).bind
  intro filtered hfiltered
  have row : filtered.rowType = rhs.rowType := by
    obtain ⟨-, rfl⟩ | ⟨e, i, -, rfl⟩ := yields_filterNulls h hfiltered
    · rfl
    · rfl
  refine (Plan.succeeds_build ?_).bind ?_
  · change (projections keys).forM (fun f => f.expr.checkFields filtered.rowType) = .ok ()
    rw [forM_eq_ok_iff, row]
    exact fun f hf => (typedIn_of_mem_projections h hf).checkFields
  · intro projected hprojected
    obtain ⟨-, j, rfl⟩ := Plan.yields_build hprojected
    exact Plan.succeeds_build (checkKeys_iota (by simp [Operator.output, Operator.ownOutput?]))

/-- What is built belongs to the keys that the assignment selects. -/
theorem yields_plan {p : Plan} (h : (plan lhsKeys rhsKeys lhsRow rhs a).Yields p) :
    ∃ keys, a.mapM (ofJoinKey lhsKeys rhsKeys lhsRow rhs.rowType) = .ok keys ∧ KeyPlan keys rhs p := by
  rw [plan_eq] at h
  obtain ⟨keys, hkeys, h⟩ := Planner.yields_bind h
  rw [Planner.yields_ofExcept] at hkeys
  refine ⟨keys, hkeys, yields_planOf (reads_of_mapM hkeys) ?_⟩
  split at h
  · obtain ⟨-, -, h⟩ := Planner.yields_bind h
    exact h
  · exact h

/-- Search keys take no parameters. -/
theorem keepsParams_plan : (plan lhsKeys rhsKeys lhsRow rhs a).KeepsParams := by
  have filterNulls (positions : List Nat) : (rhs.filterNulls positions).KeepsParams := by
    unfold Plan.filterNulls
    refine (Planner.keepsParams_ofExcept _).bind fun e? => ?_
    cases e? with
    | none => exact Planner.keepsParams_pure rhs
    | some e => exact Plan.keepsParams_build _ _
  have planOf (keys : List SearchKey) : (planOf keys rhs).KeepsParams := by
    refine (filterNulls _).bind fun filtered => ?_
    exact (Plan.keepsParams_build _ _).bind fun projected => Plan.keepsParams_build _ _
  rw [plan_eq]
  refine (Planner.keepsParams_ofExcept _).bind fun keys => ?_
  split
  · exact (Planner.keepsParams_report _).bind fun _ => planOf keys
  · exact planOf keys

theorem succeeds_plan (h : a.mapM (ofJoinKey lhsKeys rhsKeys lhsRow rhs.rowType) = .ok keys) :
    (plan lhsKeys rhsKeys lhsRow rhs a).Succeeds := by
  rw [plan_eq]
  apply (Planner.succeeds_ofExcept h).bind
  intro keys' hkeys
  have reads := reads_of_mapM (Planner.yields_ofExcept.1 hkeys)
  split
  · exact (Planner.succeeds_report _).bind fun _ _ => succeeds_planOf reads
  · exact succeeds_planOf reads

namespace KeyPlan

/-- A property spreads over the plan of the search keys if it holds on the right and at the nodes
above it. -/
theorem everywhere {P : Plan → Prop} {p : Plan} (h : KeyPlan keys rhs p) (below : rhs.Everywhere P)
    (filter : ∀ i e, notNull? keys = some e → P (.node i (.filter e) [rhs]))
    (project : ∀ i x, x = rhs ∨ (∃ j e, x = .node j (.filter e) [rhs]) →
      P (.node i (.project (projections keys)) [x]))
    (sort : ∀ i j cols fields x, P (.node i (.sort cols true) [.node j (.project fields) [x]])) :
    p.Everywhere P := by
  cases h with
  | unfiltered none =>
    simp only [Plan.everywhere_node, List.forall_mem_singleton]
    exact ⟨sort _ _ _ _ _, project _ _ (.inl rfl), below⟩
  | filtered some =>
    simp only [Plan.everywhere_node, List.forall_mem_singleton]
    exact ⟨sort _ _ _ _ _, project _ _ (.inr ⟨_, _, rfl⟩), filter _ _ some, below⟩

/-- The plan is a distinct sort of the projected keys. -/
theorem exists_eq {p : Plan} (h : KeyPlan keys rhs p) :
    ∃ i j x, p = .node i (.sort (.iota keys.length) true) [.node j (.project (projections keys)) [x]] := by
  cases h with
  | unfiltered none => exact ⟨_, _, _, rfl⟩
  | filtered some => exact ⟨_, _, _, rfl⟩

theorem isProbe_eq {p : Plan} (h : KeyPlan keys rhs p) : p.isProbe = false := by
  cases h <;> rfl

end KeyPlan

end SearchKey

end QueryPlan
