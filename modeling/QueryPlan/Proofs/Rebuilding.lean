import QueryPlan.Plan.Shape
import QueryPlan.Proofs.Rewriting

/-!
# Operators over other inputs

An operator refers to its inputs by their number and by positions of fields. Once it was accepted, whether it
may stand over other inputs is a matter of these alone (`Operator.check_eq_checkAll`). An operation keeps
everything else when its inputs are exchanged (`Operation.exchanged_of_withInputs`), and so does a plan that is
built again (`Plan.rebuild_exact`).
-/
namespace QueryPlan

/-- The field at a position of the input with a number. -/
structure FieldReference where
  input : Nat
  pos : Nat

namespace FieldReference

/-- The input that is referred to, if there is one, has the field. -/
def Within (rows : List RowType) (r : FieldReference) : Prop :=
  ∀ row ∈ rows[r.input]?, r.pos < row.length

/-- What is reported of a reference to a field that the input does not have. -/
def fault? (rows : List RowType) (r : FieldReference) : Option PlanError :=
  rows[r.input]?.bind fun row =>
    if row.length ≤ r.pos then some (.fieldOutOfRange r.pos row.length) else none

/-- Reports the first reference to a field that the input does not have. -/
def checkAll (rows : List RowType) (refs : List FieldReference) : Except PlanError Unit :=
  match refs.findSome? (fault? rows) with
  | some e => .error e
  | none => .ok ()

variable {rows : List RowType}

theorem fault?_eq_some_iff {r : FieldReference} {e : PlanError} : r.fault? rows = some e ↔
    ∃ row, rows[r.input]? = some row ∧ row.length ≤ r.pos ∧ e = .fieldOutOfRange r.pos row.length := by
  rw [fault?, Option.bind_eq_some_iff]
  refine exists_congr fun row => and_congr_right fun _ => ?_
  rw [Option.ite_none_right_eq_some]
  exact and_congr_right fun _ => Option.some_inj.trans eq_comm

theorem fault?_eq_none_iff {r : FieldReference} : r.fault? rows = none ↔ r.Within rows := by
  rw [fault?, Option.bind_eq_none_iff]
  refine forall₂_congr fun row _ => ?_
  rw [ite_eq_right_iff, imp_iff_not (Option.some_ne_none _), Nat.not_le]

theorem checkAll_eq_error_iff {refs : List FieldReference} {e : PlanError} :
    checkAll rows refs = .error e ↔ ∃ before r after, refs = before ++ r :: after ∧
      r.fault? rows = some e ∧ ∀ s ∈ before, s.Within rows := by
  simp only [← fault?_eq_none_iff, ← List.findSome?_eq_some_iff, checkAll]
  cases refs.findSome? (fault? rows) <;> simp

theorem checkAll_append (refs more : List FieldReference) :
    checkAll rows (refs ++ more) = (do checkAll rows refs; checkAll rows more) := by
  unfold checkAll
  rw [List.findSome?_append]
  cases refs.findSome? (fault? rows) <;> rfl

/-- Of references to one input the first to a field beyond its row is reported. -/
theorem checkAll_map {α : Type} {f : α → Nat} {n : Nat} {row : RowType} (input : rows[n]? = some row)
    (xs : List α) : checkAll rows (xs.map fun x => ⟨n, f x⟩) =
      match xs.find? (row.length ≤ f ·) with
      | some x => .error (.fieldOutOfRange (f x) row.length)
      | none => .ok () := by
  induction xs with
  | nil => rfl
  | cons x xs ih =>
    unfold checkAll at ih ⊢
    rw [List.map_cons, List.findSome?_cons, List.find?_cons]
    by_cases beyond : row.length ≤ f x
    · simp [fault?, input, beyond]
    · simpa [fault?, input, beyond] using ih

end FieldReference

open FieldReference

/-- The references to fields of the inputs in the order in which they are checked. -/
def Operator.references : Operator → List FieldReference
  | .semiJoin lhsKeys rhsKeys => lhsKeys.map (⟨0, ·.toNat⟩) ++ rhsKeys.map (⟨1, ·.toNat⟩)
  | .project fields => fields.flatMap fun f => f.expr.positions.map (⟨0, ·⟩)
  | .sort keys _ => keys.map (⟨0, ·.toNat⟩)
  | .filter predicate => predicate.positions.map (⟨0, ·⟩)
  | .tableScan _ | .ixSearch .. | .ixMerge .. | .ixIntersect _ => []

theorem OperatorKind.arity?_eq_none_iff {k : OperatorKind} :
    k.arity? = none ↔ k = .tableScan ∨ k = .ixIntersect := by
  cases k <;> simp [arity?]

namespace Operator

variable {op : Operator} {old rows : List RowType}

theorem checkKeys_eq_checkAll {n : Nat} {row : RowType} (input : rows[n]? = some row) (keys : ColumnList) :
    row.checkKeys keys = checkAll rows (keys.map (⟨n, ·.toNat⟩)) := by
  rw [checkAll_map input, RowType.checkKeys]
  cases keys.find? (row.length ≤ ·.toNat) <;> rfl

theorem checkFields_eq_checkAll {n : Nat} {row : RowType} (input : rows[n]? = some row) (e : Scalar) :
    e.checkFields row = checkAll rows (e.positions.map (⟨n, ·⟩)) := by
  rw [checkAll_map input, Scalar.checkFields]
  cases e.positions.find? (row.length ≤ ·) <;> rfl

theorem forM_checkFields_eq_checkAll {n : Nat} {row : RowType} (input : rows[n]? = some row)
    (fields : List Projection) : (fields.forM fun f => f.expr.checkFields row) =
      checkAll rows (fields.flatMap fun f => f.expr.positions.map (⟨n, ·⟩)) := by
  induction fields with
  | nil => rfl
  | cons f fields ih =>
    rw [List.flatMap_cons, checkAll_append, ← checkFields_eq_checkAll input, ← ih]
    rfl

theorem check_ixIntersect (params : GroupParams) :
    (ixIntersect params).check rows =
      if rows.length < 2 then .error (.intersectArity rows.length) else .ok () := by
  unfold check
  rfl

theorem exists_singletons (accepted : op.check old = .ok ()) (same : rows.length = old.length)
    (one : op.kind.arity? = some 1) : ∃ row x, rows = [row] ∧ old = [x] := by
  have single : old.length = 1 := length_eq_of_check accepted one
  obtain ⟨row, hrow⟩ := List.length_eq_one_iff.1 (same.trans single)
  obtain ⟨x, hx⟩ := List.length_eq_one_iff.1 single
  exact ⟨row, x, hrow, hx⟩

/-- An operator that was accepted is accepted over every equal number of inputs that have the fields it
refers to. -/
theorem check_eq_checkAll (accepted : op.check old = .ok ()) (same : rows.length = old.length) :
    op.check rows = checkAll rows op.references := by
  cases op with
  | semiJoin lhsKeys rhsKeys =>
    obtain ⟨lhs, rhs, rfl⟩ := List.length_eq_two.1 (same.trans (length_eq_of_check accepted rfl))
    obtain ⟨x, y, rfl⟩ := List.length_eq_two.1 (length_eq_of_check accepted rfl)
    have length := (check_semiJoin_eq_ok_iff.1 accepted).1
    have left : [lhs, rhs][0]? = some lhs := rfl
    have right : [lhs, rhs][1]? = some rhs := rfl
    rw [references, checkAll_append, ← checkKeys_eq_checkAll left, ← checkKeys_eq_checkAll right, check,
      if_neg (not_not.2 length)]
  | tableScan scan => exact accepted
  | ixSearch source uniqueKey outer params =>
    obtain ⟨row, x, rfl, rfl⟩ := exists_singletons accepted same rfl
    exact accepted
  | ixMerge params limit =>
    obtain ⟨row, x, rfl, rfl⟩ := exists_singletons accepted same rfl
    rfl
  | ixIntersect params =>
    rw [check_ixIntersect, same, ← check_ixIntersect]
    exact accepted
  | project fields =>
    obtain ⟨row, x, rfl, rfl⟩ := exists_singletons accepted same rfl
    exact forM_checkFields_eq_checkAll rfl fields
  | sort keys distinct =>
    obtain ⟨row, x, rfl, rfl⟩ := exists_singletons accepted same rfl
    exact checkKeys_eq_checkAll rfl keys
  | filter predicate =>
    obtain ⟨row, x, rfl, rfl⟩ := exists_singletons accepted same rfl
    exact checkFields_eq_checkAll rfl predicate

end Operator

namespace Operation

variable {π ρ σ : Type} {o : Operation π} {rebuilt : Operation ρ} {xs : List ρ}

theorem inputs_withInputs (h : o.withInputs xs = .ok rebuilt) : rebuilt.inputs = xs := by
  unfold withInputs at h
  split at h <;> cases h <;> rfl

theorem operator_withInputs (h : o.withInputs xs = .ok rebuilt) : rebuilt.operator = o.operator := by
  unfold withInputs at h
  split at h <;> cases h <;> rfl

theorem kind_withInputs (h : o.withInputs xs = .ok rebuilt) : rebuilt.kind = o.kind := by
  rw [← kind_operator, ← kind_operator, operator_withInputs h]

/-- Which inputs an operation has is forgotten once it gets other ones. -/
theorem withInputs_withInputs (h : o.withInputs xs = .ok rebuilt) (ys : List σ) :
    rebuilt.withInputs ys = o.withInputs ys := by
  rw [withInputs_eq_ofNode, withInputs_eq_ofNode, operator_withInputs h]

@[simp] theorem withInputs_inputs (o : Operation π) : o.withInputs o.inputs = .ok o := by
  cases o <;> rfl

/-- The operation `rebuilt` is `o` over the inputs `xs`, and nothing but the inputs has changed. -/
structure Exchanged (o : Operation π) (xs : List ρ) (rebuilt : Operation ρ) : Prop where
  kind_eq : rebuilt.kind = o.kind
  operator_eq : rebuilt.operator = o.operator
  inputs_eq : rebuilt.inputs = xs
  back : rebuilt.withInputs o.inputs = .ok o
  again (ys : List ρ) : rebuilt.withInputs ys = o.withInputs ys

theorem exchanged_of_withInputs (h : o.withInputs xs = .ok rebuilt) : o.Exchanged xs rebuilt where
  kind_eq := kind_withInputs h
  operator_eq := operator_withInputs h
  inputs_eq := inputs_withInputs h
  back := by rw [withInputs_withInputs h, withInputs_inputs]
  again ys := withInputs_withInputs h ys

end Operation

namespace Plan

variable {p q : Plan} {xs : List Plan}

/-- A plan is one operation: its operator over its inputs. -/
theorem operation_eq_ok_iff {o : Operation Plan} :
    p.operation = .ok o ↔ o.operator = p.op ∧ o.inputs = p.inputs :=
  Operation.ofNode_eq_ok_iff

theorem kind_of_operation {o : Operation Plan} (h : p.operation = .ok o) : o.kind = p.kind := by
  rw [← Operation.kind_operator, (operation_eq_ok_iff.1 h).1, kind]

/-- The operation of a plan that was rebuilt is that of the old one with the new inputs exchanged. -/
theorem operation_of_rebuild {o : Operation Plan} (own : p.operation = .ok o)
    (rebuilt : (p.rebuild xs).Yields q) : ∃ o', q.operation = .ok o' ∧ o.withInputs xs = .ok o' := by
  unfold rebuild at rebuilt
  obtain ⟨o₁, found, rebuilt⟩ := Planner.yields_bind rebuilt
  obtain ⟨o', exchanged, rebuilt⟩ := Planner.yields_bind rebuilt
  obtain rfl := Except.ok.inj ((Planner.yields_ofExcept.1 found).symm.trans own)
  obtain ⟨-, id, rfl⟩ := yields_build rebuilt
  exact ⟨o', operation_eq_ok_iff.2 ⟨rfl, rfl⟩, Planner.yields_ofExcept.1 exchanged⟩

/-- Why an operator that was accepted over its own inputs is refused over other ones. -/
inductive Misfit (p : Plan) (xs : List Plan) : PlanError → Prop
  | inputs (scan : p.kind ≠ .tableScan) (intersect : p.kind ≠ .ixIntersect)
      (other : xs.length ≠ p.inputs.length) : Misfit p xs (.inputArity p.kind p.inputs.length xs.length)
  | few (intersect : p.kind = .ixIntersect) (few : xs.length < 2) : Misfit p xs (.intersectArity xs.length)
  /-- The first reference to a field that is missing is to an input `x`. -/
  | field {before after : List FieldReference} {r : FieldReference} {x : Plan}
      (same : xs.length = p.inputs.length) (refs : p.op.references = before ++ r :: after)
      (earlier : ∀ s ∈ before, s.Within (xs.map rowType)) (input : xs[r.input]? = some x)
      (beyond : x.rowType.length ≤ r.pos) : Misfit p xs (.fieldOutOfRange r.pos x.rowType.length)

theorem Accepted.misfit (accepted : p.Accepted) {e : PlanError}
    (refused : p.op.check (xs.map rowType) = .error e) : p.Misfit xs e := by
  by_cases same : xs.length = p.inputs.length
  · rw [Operator.check_eq_checkAll accepted (by simpa using same)] at refused
    obtain ⟨before, r, after, refs, fault, earlier⟩ := checkAll_eq_error_iff.1 refused
    obtain ⟨row, input, beyond, rfl⟩ := fault?_eq_some_iff.1 fault
    rw [List.getElem?_map, Option.map_eq_some_iff] at input
    obtain ⟨x, input, rfl⟩ := input
    exact .field same refs earlier input beyond
  · cases arity : p.kind.arity? with
    | some n =>
      rw [← accepted.length_inputs arity] at arity
      rw [Operator.check_eq_inputArity arity (by simpa using same), List.length_map] at refused
      obtain rfl := Except.error.inj refused
      refine .inputs (fun scan => ?_) (fun intersect => ?_) same
      · rw [scan] at arity
        cases arity
      · rw [intersect] at arity
        cases arity
    | none =>
      obtain ⟨id, op, inputs⟩ := p
      cases op with
      | tableScan scan => exact nomatch accepted.symm.trans refused
      | ixIntersect params =>
        rw [op_node, Operator.check_ixIntersect, List.length_map] at refused
        split at refused
        · next few =>
          obtain rfl := Except.error.inj refused
          exact .few rfl few
        · cases refused
      | _ => cases arity

theorem Misfit.check_eq {e : PlanError} (misfit : p.Misfit xs e) (accepted : p.Accepted) :
    p.op.check (xs.map rowType) = .error e := by
  cases misfit with
  | inputs scan intersect other =>
    obtain ⟨n, arity⟩ : ∃ n, p.kind.arity? = some n := by
      rw [← Option.ne_none_iff_exists', Ne, OperatorKind.arity?_eq_none_iff]
      exact not_or.2 ⟨scan, intersect⟩
    rw [← accepted.length_inputs arity] at arity
    rw [Operator.check_eq_inputArity arity (by simpa using other), List.length_map]
    rfl
  | few intersect few =>
    obtain ⟨id, op, inputs⟩ := p
    cases op with
    | ixIntersect params => rw [op_node, Operator.check_ixIntersect, List.length_map, if_pos few]
    | _ => cases intersect
  | field same refs earlier input beyond =>
    rw [Operator.check_eq_checkAll accepted (by simpa using same), checkAll_eq_error_iff]
    refine ⟨_, _, _, refs, fault?_eq_some_iff.2 ⟨_, ?_, beyond, rfl⟩, earlier⟩
    rw [List.getElem?_map, input]
    rfl

theorem rebuild_eq_error_iff (accepted : p.Accepted) (w : Workspace) {e : PlanError} :
    ((p.rebuild xs).outcome w).1 = .error e ↔ p.Misfit xs e := by
  rw [accepted.rebuild_eq]
  constructor
  · intro refused
    have failed : (build p.op xs).Fails w e ((build p.op xs).outcome w).2 := Prod.ext refused rfl
    exact accepted.misfit (fails_build.1 failed).1
  · intro misfit
    exact ends_build_error (misfit.check_eq accepted) w

/-- A plan that was rebuilt is rebuilt as the old one is, and as the old one over the old inputs. -/
theorem rebuild_of_operation {o o' : Operation Plan} (own : p.operation = .ok o) (new : q.operation = .ok o')
    (exchanged : o.Exchanged xs o') (ys : List Plan) : q.rebuild ys = p.rebuild ys := by
  unfold rebuild
  rw [own, new, Planner.ofExcept_ok_bind, Planner.ofExcept_ok_bind, exchanged.again]

theorem returns_rebuild_inputs {o o' : Operation Plan} (accepted : p.Accepted) (own : p.operation = .ok o)
    (new : q.operation = .ok o') (exchanged : o.Exchanged xs o') (w : Workspace) :
    ∃ r w', (q.rebuild p.inputs).Returns w r w' ∧ r.operation = .ok o ∧ r.shape = p.shape := by
  obtain ⟨operator, inputs⟩ := operation_eq_ok_iff.1 own
  have back : (q.rebuild p.inputs).Returns w (node w.nextNode p.op p.inputs)
      { w with nextNode := w.nextNode + 1 } := by
    rw [rebuild_of_operation own new exchanged, accepted.rebuild_eq]
    exact returns_build.2 ⟨accepted, rfl, rfl⟩
  refine ⟨_, _, back, operation_eq_ok_iff.2 ⟨operator, inputs⟩, ?_⟩
  cases p
  rw [shape_node, shape_node]
  rfl

/-- An operation over other inputs is the same operation but for these. With its old inputs put back it is
the operation it was, and exchanging the inputs again does what exchanging those of the old one does. It is
refused exactly for a number of inputs that its kind does not take and for the first reference to a field
that an input does not have. -/
theorem rebuild_exact {p : Plan} (accepted : p.Accepted) (xs : List Plan) :
    ∃ o, p.operation = .ok o ∧ o.kind = p.kind ∧ o.operator = p.op ∧ o.inputs = p.inputs ∧
      (∀ q, (p.rebuild xs).Yields q → ∃ o', q.operation = .ok o' ∧ o.withInputs xs = .ok o' ∧
        o.Exchanged xs o' ∧ q.kind = p.kind ∧ q.op = p.op ∧ q.inputs = xs ∧
        (∀ ys, q.rebuild ys = p.rebuild ys) ∧
        ∀ w, ∃ r w', (q.rebuild p.inputs).Returns w r w' ∧ r.operation = .ok o ∧ r.shape = p.shape) ∧
      ∀ w e, ((p.rebuild xs).outcome w).1 = .error e ↔ p.Misfit xs e := by
  obtain ⟨o, own⟩ := accepted.exists_operation
  obtain ⟨operator, inputs⟩ := operation_eq_ok_iff.1 own
  refine ⟨o, own, kind_of_operation own, operator, inputs, fun q rebuilt => ?_,
    fun w e => rebuild_eq_error_iff accepted w⟩
  obtain ⟨o', new, rebuilt⟩ := operation_of_rebuild own rebuilt
  have exchanged := Operation.exchanged_of_withInputs rebuilt
  obtain ⟨newOperator, newInputs⟩ := operation_eq_ok_iff.1 new
  refine ⟨o', new, rebuilt, exchanged, ?_, ?_, ?_, rebuild_of_operation own new exchanged,
    returns_rebuild_inputs accepted own new exchanged⟩
  · rw [← kind_of_operation new, exchanged.kind_eq, kind_of_operation own]
  · rw [← newOperator, exchanged.operator_eq, operator]
  · rw [← newInputs, exchanged.inputs_eq]

/-- The first fields of some pairs. -/
def firstOfMorePairs : Plan := .node 4 (.project [⟨"first", .field 0 .bigint⟩]) [morePairs]

/-- A semijoin on the second fields of pairs over other pairs, over too few inputs, and over pairs that have
lost their second field. -/
theorem rebuild_exact_ofPairs :
    (∃ q w' o', ((ScanSemiJoin.ofPairs [] [1]).plan.rebuild [morePairs, morePairs]).Returns
        { nextNode := 5 } q w' ∧ q.operation = .ok o' ∧ o'.inputs = [morePairs, morePairs] ∧
      ∀ w, ∃ r w', (q.rebuild (ScanSemiJoin.ofPairs [] [1]).plan.inputs).Returns w r w' ∧
        r.shape = (ScanSemiJoin.ofPairs [] [1]).plan.shape) ∧
    (∀ w, (((ScanSemiJoin.ofPairs [] [1]).plan.rebuild [morePairs]).outcome w).1 =
      .error (.inputArity .semiJoin 2 1)) ∧
    ∀ w, (((ScanSemiJoin.ofPairs [] [1]).plan.rebuild [morePairs, firstOfMorePairs]).outcome w).1 =
      .error (.fieldOutOfRange 1 1) := by
  have accepted : (ScanSemiJoin.ofPairs [] [1]).plan.Accepted := by decide
  refine ⟨?_, fun w => ?_, fun w => ?_⟩
  · have returned : ((ScanSemiJoin.ofPairs [] [1]).plan.rebuild [morePairs, morePairs]).Returns
        { nextNode := 5 } (.node 5 (.semiJoin (.ofNats [1]) (.ofNats [1])) [morePairs, morePairs])
        { nextNode := 6 } := by
      rfl
    obtain ⟨o, -, -, -, -, rebuilt, -⟩ := rebuild_exact accepted [morePairs, morePairs]
    obtain ⟨o', new, -, exchanged, -, -, -, -, back⟩ := rebuilt _ returned.yields
    refine ⟨_, _, o', returned, new, exchanged.inputs_eq, fun w => ?_⟩
    obtain ⟨r, w', returned, -, same⟩ := back w
    exact ⟨r, w', returned, same⟩
  · obtain ⟨o, -, -, -, -, -, refused⟩ := rebuild_exact accepted [morePairs]
    exact (refused w _).2 (.inputs (by decide) (by decide) (by decide))
  · have refs : (ScanSemiJoin.ofPairs [] [1]).plan.op.references = [⟨0, 1⟩] ++ ⟨1, 1⟩ :: [] := rfl
    have earlier : ∀ s ∈ [FieldReference.mk 0 1], s.Within ([morePairs, firstOfMorePairs].map rowType) := by
      simp [Within, morePairs, TableScan.ofPairs, Operator.output, Operator.ownOutput?, TableScan.rowType]
    have two : [morePairs, firstOfMorePairs].length = (ScanSemiJoin.ofPairs [] [1]).plan.inputs.length := rfl
    obtain ⟨o, -, -, -, -, -, refused⟩ := rebuild_exact accepted [morePairs, firstOfMorePairs]
    exact (refused w _).2 (.field two refs earlier rfl (by decide))

end Plan

end QueryPlan
