import QueryPlan.RowAccess

/-!
# Scalar expressions

A scalar expression is evaluated on one row. Fields are referred to by position and carry their type.
-/
namespace QueryPlan

inductive Scalar
  | field (pos : Nat) (type : SqlType)
  | cast (operand : Scalar) (type : SqlType)
  | isNotNull (operand : Scalar)
  /-- The conjunction of any number of terms. -/
  | conj (terms : List Scalar)
deriving Inhabited

namespace Scalar

mutual
def decEq (a b : Scalar) : Decidable (a = b) :=
  match a, b with
  | .field p s, .field q t => decidable_of_iff (p = q ∧ s = t) (by simp)
  | .cast x s, .cast y t =>
    haveI := decEq x y
    decidable_of_iff (x = y ∧ s = t) (by simp)
  | .isNotNull x, .isNotNull y =>
    haveI := decEq x y
    decidable_of_iff (x = y) (by simp)
  | .conj xs, .conj ys =>
    haveI := decEqAll xs ys
    decidable_of_iff (xs = ys) (by simp)
  | .field .., .cast .. | .field .., .isNotNull .. | .field .., .conj .. | .cast .., .field ..
  | .cast .., .isNotNull .. | .cast .., .conj .. | .isNotNull .., .field .. | .isNotNull .., .cast ..
  | .isNotNull .., .conj .. | .conj .., .field .. | .conj .., .cast .. | .conj .., .isNotNull .. =>
    isFalse (by intro h; cases h)
def decEqAll (xs ys : List Scalar) : Decidable (xs = ys) :=
  match xs, ys with
  | [], [] => isTrue rfl
  | x :: xs, y :: ys =>
    haveI := decEq x y
    haveI := decEqAll xs ys
    decidable_of_iff (x = y ∧ xs = ys) (by simp)
  | [], _ :: _ | _ :: _, [] => isFalse (by intro h; cases h)
end

instance : DecidableEq Scalar := decEq

def type : Scalar → SqlType
  | field _ t | cast _ t => t
  | isNotNull _ | conj _ => .boolean

mutual
/-- The expression and all its subexpressions in pre-order. -/
def subterms : Scalar → List Scalar
  | .field p t => [.field p t]
  | .cast e t => .cast e t :: e.subterms
  | .isNotNull e => .isNotNull e :: e.subterms
  | .conj es => .conj es :: subtermsAll es
def subtermsAll : List Scalar → List Scalar
  | [] => []
  | e :: es => e.subterms ++ subtermsAll es
end

/-- The positions of the fields it refers to, from left to right. -/
def positions (e : Scalar) : List Nat :=
  e.subterms.filterMap fun
    | field p _ => some p
    | _ => none

/-- Reports the first field that is not in the row. -/
def checkFields (e : Scalar) (row : RowType) : Except PlanError Unit :=
  let width := row.length
  match e.positions.find? (width ≤ ·) with
  | some p => .error (.fieldOutOfRange p width)
  | none => .ok ()

/-- The field of a row at a position. -/
def ofField (row : RowType) (pos : Nat) : Except PlanError Scalar := do
  return field pos (← row.field pos).type

/-- The condition that no field at `positions` is null; there is none if there is nothing to check. -/
def notNull? (row : RowType) (positions : List Nat) : Except PlanError (Option Scalar) := do
  match ← positions.mapM (ofField row) with
  | [] => return none
  | [e] => return some (isNotNull e)
  | es => return some (conj (es.map isNotNull))

/-- Casts each expression to the type of its target, those that already have it included. -/
def castAll (target : RowType) (exprs : List Scalar) : Except PairingError (List Scalar) :=
  if target.length = exprs.length then .ok (exprs.zipWith (fun e f => cast e f.type) target)
  else .error (.casts target.length exprs.length)

end Scalar

end QueryPlan
