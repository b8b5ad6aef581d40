import QueryPlan.Plan.Basic

/-!
# Patterns

A pattern is a tree of operator kinds. Its children are matched by position with the inputs of an operator;
inputs beyond the children may be anything. A match binds the operators in pre-order.
-/
namespace QueryPlan

inductive Pattern
  | operand (kind : OperatorKind) (children : List Pattern)

namespace Pattern

mutual
/-- The number of operators a match binds. -/
def size : Pattern → Nat
  | .operand _ children => 1 + sizeAll children
def sizeAll : List Pattern → Nat
  | [] => 0
  | c :: cs => c.size + sizeAll cs
end

mutual
/-- The operators bound by a match with the root of a plan. -/
def bind? : Pattern → Plan → Option (List Plan)
  | .operand kind children, p =>
    if p.kind = kind then (bindAll? children p.inputs).map (p :: ·) else none
def bindAll? : List Pattern → List Plan → Option (List Plan)
  | [], _ => some []
  | _ :: _, [] => none
  | c :: cs, p :: ps => do return (← c.bind? p) ++ (← bindAll? cs ps)
end

end Pattern

end QueryPlan
