import QueryPlan.Proofs.ParallelSteps
import QueryPlan.Proofs.Sessions

/-!
# Runs with other parameters

A caller of the optimizer fires rules on its plan and applies what it was offered, and goes on where a request
is refused. Two callers that ask for the same, one of them where the next parameter lies some places further
on, get the same replies with the parameters that much further on, however long they go on
(`Optimizer.replies_of_start`). The parameters may start again at zero in one run and not in the other one.
-/
namespace QueryPlan

open Planner

namespace Planner

variable {α β γ δ : Type} {d : Nat} {k : α → β} {l : γ → δ}

/-- `d` parameters ahead the second step does what the first one does. Where the first one returns `a`,
the second one returns `k a`. -/
def Follows (d : Nat) (k : α → β) (m : Planner α) (m' : Planner β) : Prop :=
  Parallel (Beside True d) (fun a b => b = k a) m m'

theorem follows_pure (a : α) : Follows d k (pure a) (pure (k a)) := parallel_pure rfl

theorem Follows.bind {m : Planner α} {m' : Planner β} {f : α → Planner γ} {f' : β → Planner δ}
    (first : Follows d k m m') (rest : ∀ a, Follows d l (f a) (f' (k a))) :
    Follows d l (m >>= f) (m' >>= f') :=
  Parallel.bind first fun a _ value => value ▸ rest a

theorem follows_mapM {f : γ → Planner α} {g : γ → Planner β} {xs : List γ}
    (h : ∀ x ∈ xs, Follows d k (f x) (g x)) : Follows d (List.map k) (xs.mapM f) (xs.mapM g) := by
  induction xs with
  | nil => exact follows_pure []
  | cons x xs ih =>
    rw [List.mapM_cons, List.mapM_cons]
    refine (h x (by simp)).bind fun y => ?_
    exact (ih fun z hz => h z (by simp [hz])).bind fun ys => follows_pure (y :: ys)

end Planner

variable {d : Nat}

namespace Plan

theorem forall₂_counterpart_map (inputs : List Plan) :
    List.Forall₂ (Counterpart True d) inputs (inputs.map (advance d)) :=
  List.forall₂_map_right_iff.2 (List.forall₂_same.2 fun x _ => counterpart_advance _ x)

theorem follows_build (op : Operator) (inputs : List Plan) :
    Follows d (advance d) (build op inputs) (build (op.advance d) (inputs.map (advance d))) :=
  (parallel_build op (forall₂_counterpart_map inputs)).imp fun _ _ h => h.eq_advance trivial

theorem follows_replace (target replacement root : Plan) :
    Follows d (advance d) (replace target replacement root)
      (replace (target.advance d) (replacement.advance d) (root.advance d)) := by
  induction root with
  | node i op inputs ih =>
    rw [advance_node, replace_node, replace_node, id_advance, List.mapM_map]
    split
    · exact follows_pure replacement
    · refine (follows_mapM ih).bind fun replaced => ?_
      have ids (ps : List Plan) : (ps.map (advance d)).map Plan.id = ps.map Plan.id := by simp
      rw [ids, ids]
      split
      · rw [← advance_node]
        exact follows_pure _
      · exact follows_build op replaced

end Plan

namespace SemiJoinRule

theorem follows_existing (r : SemiJoinRule) (s : TableScan) (inputs : List Plan) (bound : Option Plan) :
    Parallel (Beside True d) (Option.Rel (Plan.Counterpart True d)) (Planner.ofExcept (r.existing s inputs bound))
      (Planner.ofExcept (r.existing s (inputs.map (Plan.advance d)) (bound.map (Plan.advance d)))) := by
  rw [existing_advance]
  intro w w' start
  cases r.existing s inputs bound with
  | error e => exact .failed start
  | ok probe? =>
    refine .returned ?_ start
    cases probe? with
    | none => exact .none
    | some probe => exact .some (Plan.counterpart_advance _ probe)

theorem follows_throughIndex (r : SemiJoinRule) (lhsKeys rhsKeys : ColumnList) (s : TableScan)
    (inputs : List Plan) (rhs : Plan) (bound : Option Plan) :
    Follows d (Option.map (Plan.advance d)) (r.throughIndex lhsKeys rhsKeys s inputs rhs bound)
      (r.throughIndex lhsKeys rhsKeys s (inputs.map (Plan.advance d)) (rhs.advance d)
        (bound.map (Plan.advance d))) := by
  have through := parallel_throughIndex (d := d) (r := r) rfl rfl lhsKeys rhsKeys s
    (Plan.forall₂_counterpart_map inputs) (Plan.counterpart_advance True rhs)
    (r.follows_existing s inputs bound)
  refine through.imp fun p? q? plans => ?_
  cases plans with
  | none => rfl
  | some plan => exact congrArg some (plan.eq_advance trivial)

theorem follows_transform (r : SemiJoinRule) (bound : List Plan) :
    Follows d (Option.map (Plan.advance d)) (r.transform bound) (r.transform (bound.map (Plan.advance d))) := by
  unfold transform
  split
  · next i lhsKeys rhsKeys lhs rhs j s inputs rest =>
    rw [List.map_cons, List.map_cons, Plan.advance_node, Plan.advance_node]
    have through := follows_throughIndex (d := d) r lhsKeys rhsKeys s inputs rhs rest.head?
    rw [← List.head?_map] at through
    exact through
  · next other =>
    split
    · next lhsKeys rhsKeys _ _ _ s _ _ eq =>
      -- The operators would have the same form without the parameters further on.
      obtain ⟨p, ps, rfl, hp, eq⟩ := List.map_eq_cons_iff.1 eq
      obtain ⟨q, qs, rfl, hq, -⟩ := List.map_eq_cons_iff.1 eq
      obtain ⟨op, xs, rfl, hop, hxs⟩ := Plan.advance_eq_node_iff.1 hp
      obtain ⟨op', ys, rfl, hop', -⟩ := Plan.advance_eq_node_iff.1 hq
      obtain rfl := Operator.advance_eq_semiJoin_iff.1 hop
      obtain rfl := Operator.advance_eq_tableScan_iff.1 hop'
      obtain ⟨x, y, rfl⟩ := List.length_eq_two.1 ((List.length_map _).symm.trans (congrArg List.length hxs))
      exact absurd rfl (other _ _ _ _ _ _ _ _ _)
    · exact follows_pure none

end SemiJoinRule

namespace RuleSet

theorem follows_offer (r : SemiJoinRule) (p : Plan) :
    Follows d (List.map (Alternative.advance d)) (offer r.toRule p) (offer r.toRule (p.advance d)) := by
  simp only [offer, SemiJoinRule.toRule, Pattern.bind?_advance]
  cases r.shape.pattern.bind? p with
  | none => exact follows_pure []
  | some bound =>
    refine (parallel_report _ _).bind_same fun _ => (r.follows_transform bound).bind fun q? => ?_
    cases q? with
    | none => exact follows_pure []
    | some q => exact follows_pure [Alternative.mk r.name p q]

theorem follows_alternatives (rules : List SemiJoinRule) (root : Plan) :
    Follows d (List.map (Alternative.advance d)) (alternatives (rules.map SemiJoinRule.toRule) root)
      (alternatives (rules.map SemiJoinRule.toRule) (root.advance d)) := by
  have each (p : Plan) : Follows d (List.map (List.map (Alternative.advance d)))
      ((rules.map SemiJoinRule.toRule).mapM fun rule => offer rule p)
      ((rules.map SemiJoinRule.toRule).mapM fun rule => offer rule (p.advance d)) := by
    refine follows_mapM fun rule hrule => ?_
    obtain ⟨r, -, rfl⟩ := List.mem_map.1 hrule
    exact follows_offer r p
  unfold alternatives
  rw [Plan.preorder_advance, List.mapM_map]
  refine (follows_mapM fun p _ => each p).bind fun offers => ?_
  rw [← List.map_flatten, ← List.map_flatten]
  exact follows_pure _

end RuleSet

namespace Optimizer

inductive Request
  /-- Fires rules on the plan. -/
  | fire (rules : List SemiJoinRule)
  /-- Applies an alternative, counted from the first one that was offered. -/
  | apply (choice : Nat)

inductive Reply
  /-- The alternatives for the plan as it was then. -/
  | offered (plan : Plan) (alts : List Alternative)
  | reached (plan : Plan)
  | refused (e : PlanError)
  /-- No such alternative has been offered. -/
  | missing

/-- The reply with all its parameters `d` places further on. -/
def Reply.advance (d : Nat) : Reply → Reply
  | offered plan alts => offered (plan.advance d) (alts.map (.advance d))
  | reached plan => reached (plan.advance d)
  | refused e => refused e
  | missing => missing

structure State where
  workspace : Workspace
  plan : Plan
  /-- The alternatives offered so far. -/
  offers : List Alternative := []

def reply (s : State) : Request → Reply × State
  | .fire rules =>
    match (RuleSet.alternatives (rules.map SemiJoinRule.toRule) s.plan).outcome s.workspace with
    | (.ok alts, w) => (.offered s.plan alts, ⟨w, s.plan, s.offers ++ alts⟩)
    | (.error e, w) => (.refused e, { s with workspace := w })
  | .apply choice =>
    match s.offers[choice]? with
    | none => (.missing, s)
    | some a =>
      match (a.apply s.plan).outcome s.workspace with
      | (.ok q, w) => (.reached q, ⟨w, q, s.offers⟩)
      | (.error e, w) => (.refused e, { s with workspace := w })

/-- The replies to some requests in turn. -/
def replies (s : State) : List Request → List Reply
  | [] => []
  | r :: rs => (reply s r).1 :: replies (reply s r).2 rs

variable {s s' : State}

/-- The states are alike, but the parameters of the second one lie `d` places further on. -/
structure State.Ahead (d : Nat) (s s' : State) : Prop where
  workspace : Beside True d s.workspace s'.workspace
  plan : s'.plan = s.plan.advance d
  offers : s'.offers = s.offers.map (.advance d)

theorem State.Ahead.reply (h : Ahead d s s') (r : Request) :
    (Optimizer.reply s' r).1 = (Optimizer.reply s r).1.advance d ∧
      Ahead d (Optimizer.reply s r).2 (Optimizer.reply s' r).2 := by
  obtain ⟨w, p, offers⟩ := s
  obtain ⟨w', p', offers'⟩ := s'
  obtain ⟨workspace, rfl, rfl⟩ := h
  cases r with
  | fire rules =>
    have agree := RuleSet.follows_alternatives rules p _ _ workspace
    simp only [Optimizer.reply]
    generalize (RuleSet.alternatives _ p).outcome w = x at agree ⊢
    generalize (RuleSet.alternatives _ (p.advance d)).outcome w' = y at agree ⊢
    cases agree with
    | returned value left =>
      subst value
      exact ⟨rfl, left, rfl, (List.map_append ..).symm⟩
    | failed left => exact ⟨rfl, left, rfl, rfl⟩
  | apply choice =>
    simp only [Optimizer.reply, List.getElem?_map]
    cases offers[choice]? with
    | none => exact ⟨rfl, workspace, rfl, rfl⟩
    | some a =>
      have agree := Plan.follows_replace a.matched a.replacement p _ _ workspace
      simp only [Option.map_some, Alternative.apply, Alternative.advance]
      generalize (Plan.replace a.matched a.replacement p).outcome w = x at agree ⊢
      generalize (Plan.replace _ _ (p.advance d)).outcome w' = y at agree ⊢
      cases agree with
      | returned value left =>
        subst value
        exact ⟨rfl, left, rfl, rfl⟩
      | failed left => exact ⟨rfl, left, rfl, rfl⟩

theorem replies_of_ahead (h : State.Ahead d s s') (rs : List Request) :
    replies s' rs = (replies s rs).map (Reply.advance d) := by
  induction rs generalizing s s' with
  | nil => rfl
  | cons r rs ih =>
    obtain ⟨same, next⟩ := h.reply r
    rw [replies, replies, List.map_cons, same, ih next]

/-- From a plan without index operators, where the next parameter is `first` instead, the same requests get
the same replies, with every parameter as much further on as `first` is, past the largest one if need be.
The semijoins of the alternatives stand at the same places. -/
theorem replies_of_start {root : Plan}
    (plain : root.Everywhere fun z => z.kind ≠ .ixSearch ∧ z.kind ≠ .ixMerge ∧ z.kind ≠ .ixIntersect)
    (w : Workspace) (first : ParamId) (rs : List Request) :
    replies ⟨{ w with nextParam := first }, root, []⟩ rs =
      (replies ⟨w, root, []⟩ rs).map (Reply.advance (w.nextParam.distance first)) ∧
    ∀ (p z : Plan) (path : List Nat),
      (p.advance (w.nextParam.distance first)).descend? path = some (z.advance (w.nextParam.distance first)) ↔
        p.descend? path = some z := by
  constructor
  · have ahead : State.Ahead (w.nextParam.distance first) ⟨w, root, []⟩ ⟨{ w with nextParam := first }, root, []⟩ :=
      ⟨⟨fun _ => rfl, (Id.advance_distance _ _).symm⟩, (Plan.advance_eq_self plain).symm, rfl⟩
    exact replies_of_ahead ahead rs
  · intro p z path
    rw [Plan.descend?_advance, Option.map_eq_some_iff]
    constructor
    · rintro ⟨y, stands, same⟩
      rw [stands, Plan.advance_injective same]
    · intro stands
      exact ⟨z, stands, rfl⟩

/-- Both semijoins are rewritten, the second one into a scan that reads through a group of probes. -/
def rewriteBoth : List Request :=
  [.fire (SemiJoinRule.all {}), .apply 0, .fire (SemiJoinRule.all {}), .apply 1]

/-- The two parameters of the group are the largest one and zero in one run, and 6 and 7 in the other. -/
theorem replies_of_start_pairsTwiceJoined :
    replies ⟨{ nextNode := 5, nextParam := .ofNat 5 }, .pairsTwiceJoined, []⟩ rewriteBoth =
      (replies ⟨{ nextNode := 5, nextParam := .ofNat 4294967294 }, .pairsTwiceJoined, []⟩ rewriteBoth).map
        (Reply.advance 7) ∧
    ∃ q, .reached q ∈ replies ⟨{ nextNode := 5, nextParam := .ofNat 4294967294 }, .pairsTwiceJoined, []⟩
        rewriteBoth ∧
      q.any (·.op = .ixIntersect ⟨.ofNat 4294967295, .ofNat 0⟩) ∧
      (q.advance 7).any (·.op = .ixIntersect ⟨.ofNat 6, .ofNat 7⟩) := by
  have plain : Plan.pairsTwiceJoined.Everywhere fun z =>
      z.kind ≠ .ixSearch ∧ z.kind ≠ .ixMerge ∧ z.kind ≠ .ixIntersect := by
    unfold Plan.Everywhere
    decide
  have run : (replies ⟨{ nextNode := 5, nextParam := .ofNat 4294967294 }, .pairsTwiceJoined, []⟩ rewriteBoth).any
      (fun
        | .reached q => q.any (·.op = .ixIntersect ⟨.ofNat 4294967295, .ofNat 0⟩) &&
            (q.advance 7).any (·.op = .ixIntersect ⟨.ofNat 6, .ofNat 7⟩)
        | _ => false) = true := by
    decide +kernel
  refine ⟨?_, ?_⟩
  · exact (replies_of_start plain { nextNode := 5, nextParam := .ofNat 4294967294 } (.ofNat 5) rewriteBoth).1
  · obtain ⟨answer, mem, passes⟩ := List.any_eq_true.1 run
    cases answer with
    | reached q =>
      rw [Bool.and_eq_true] at passes
      exact ⟨q, mem, passes⟩
    | _ => cases passes

end Optimizer

end QueryPlan
