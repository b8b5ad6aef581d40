import Mathlib.Data.List.Nodup
import QueryPlan.Proofs.Rewriting
import QueryPlan.Proofs.Substitution

/-!
# Identities

A workspace hands out every identity once. If the identities of the nodes built so far are below the
next one and stand for one node each, the same is true after a planning step, of these nodes and of
those the step has built. All of them are nodes whose operators accept what they stand over.
-/
namespace QueryPlan

/-- The nodes `built` may have been built in the workspace: their identities are taken, each by one
of them, they include what they stand over, and their operators have accepted it. -/
structure Workspace.Holds (w : Workspace) (built : List Plan) : Prop where
  id_lt : ∀ p ∈ built, p.id < w.nextNode
  eq_of_id : ∀ p ∈ built, ∀ q ∈ built, p.id = q.id → p = q
  inputs_mem : ∀ p ∈ built, ∀ x ∈ p.inputs, x ∈ built
  accepted : ∀ p ∈ built, p.Accepted

namespace Workspace.Holds

variable {w w' : Workspace} {built : List Plan}

theorem mono (h : w.Holds built) (later : w.nextNode ≤ w'.nextNode) : w'.Holds built where
  id_lt p hp := Nat.lt_of_lt_of_le (h.id_lt p hp) later
  eq_of_id := h.eq_of_id
  inputs_mem := h.inputs_mem
  accepted := h.accepted

/-- A checked tree in which no identity stands twice may have been built where its identities are
taken. -/
theorem preorder {p : Plan} (ids : (p.preorder.map Plan.id).Nodup)
    (lt : ∀ q ∈ p.preorder, q.id < w.nextNode) (checked : p.Checked) : w.Holds p.preorder where
  id_lt := lt
  eq_of_id _ hq _ hr same := List.inj_on_of_nodup_map ids hq hr same
  inputs_mem _ hq _ hx := Plan.mem_preorder_trans (Plan.mem_preorder_of_mem_inputs hx) hq
  accepted := checked

theorem preorder_subset (h : w.Holds built) {p : Plan} (hp : p ∈ built) : p.preorder ⊆ built := by
  induction p with
  | node i op inputs ih =>
    intro q hq
    rcases Plan.mem_preorder_node.1 hq with rfl | ⟨x, hx, hq⟩
    · exact hp
    · exact ih x hx (h.inputs_mem _ hp x hx) hq

theorem checked (h : w.Holds built) {p : Plan} (hp : p ∈ built) : p.Checked :=
  fun q hq => h.accepted q (h.preorder_subset hp hq)

/-- In a built plan only a node itself has its identity. -/
theorem alone (h : w.Holds built) {p target : Plan} (hp : p ∈ built) (ht : target ∈ built) :
    p.Everywhere fun z => z.id = target.id → z = target :=
  fun z hz => h.eq_of_id z (h.preorder_subset hp hz) target ht

/-- A node with the next identity may be added over nodes that are there. -/
theorem cons_fresh (h : w.Holds built) {op : Operator} {inputs : List Plan} (sub : inputs ⊆ built)
    (check : op.check (inputs.map Plan.rowType) = .ok ()) :
    ({ w with nextNode := w.nextNode + 1 } : Workspace).Holds (.node w.nextNode op inputs :: built) where
  id_lt := by
    intro p hp
    rcases List.mem_cons.1 hp with rfl | hp
    · exact Nat.lt_succ_self _
    · exact Nat.lt_succ_of_lt (h.id_lt p hp)
  eq_of_id := by
    have fresh : ∀ p ∈ built, p.id ≠ w.nextNode := fun p hp => Nat.ne_of_lt (h.id_lt p hp)
    intro p hp q hq same
    rcases List.mem_cons.1 hp with rfl | hp
    · rcases List.mem_cons.1 hq with rfl | hq
      · rfl
      · exact absurd same.symm (fresh q hq)
    · rcases List.mem_cons.1 hq with rfl | hq
      · exact absurd same (fresh p hp)
      · exact h.eq_of_id p hp q hq same
  inputs_mem := by
    intro p hp x hx
    rcases List.mem_cons.1 hp with rfl | hp
    · exact List.mem_cons_of_mem _ (sub hx)
    · exact List.mem_cons_of_mem _ (h.inputs_mem p hp x hx)
  accepted := by
    intro p hp
    rcases List.mem_cons.1 hp with rfl | hp
    · exact check
    · exact h.accepted p hp

end Workspace.Holds

namespace Planner

variable {α β : Type}

/-- Where the nodes `known` are built, the step keeps what is built and leaves built the nodes `out
a` of what it returns. -/
def Grows (m : Planner α) (known : List Plan) (out : α → List Plan) : Prop :=
  ∀ w a w' built, m.Returns w a w' → w.Holds built → known ⊆ built →
    ∃ built', w'.Holds built' ∧ built ⊆ built' ∧ out a ⊆ built'

/-- The step takes no identity. -/
def BuildsNothing (m : Planner α) : Prop := ∀ w a w', m.Returns w a w' → w'.nextNode = w.nextNode

theorem buildsNothing_ofExcept (r : Except PlanError α) : (ofExcept r).BuildsNothing := by
  intro w a w' h
  rw [(returns_ofExcept.1 h).2]

theorem buildsNothing_report (e : Event) : (report e).BuildsNothing := by
  intro w a w' h
  rw [returns_report.1 h]

theorem buildsNothing_freshParam [ParamAllocator] : freshParam.BuildsNothing := by
  intro w a w' h
  rw [(returns_freshParam.1 h).2]

theorem buildsNothing_freshGroup [ParamAllocator] : freshGroup.BuildsNothing := by
  intro w a w' h
  rw [(returns_freshGroup.1 h).2]

theorem buildsNothing_forM_report {ε : Type} (f : ε → Event) (xs : List ε) :
    (xs.forM fun x => report (f x)).BuildsNothing := by
  induction xs with
  | nil =>
    intro w a w' h
    rw [(returns_pure.1 h).2]
  | cons x xs ih =>
    intro w a w' h
    obtain ⟨_, v, first, rest⟩ := returns_bind.1 h
    rw [ih v a w' rest, buildsNothing_report _ w _ v first]

variable {known : List Plan} {out : α → List Plan} {out' : β → List Plan}

theorem grows_pure {a : α} (h : out a ⊆ known) : (pure a : Planner α).Grows known out := by
  intro w b w' built hb holds sub
  obtain ⟨rfl, rfl⟩ := returns_pure.1 hb
  exact ⟨built, holds, fun _ hp => hp, fun _ hp => sub (h hp)⟩

theorem grows_throw (e : PlanError) : (throw e : Planner α).Grows known out :=
  fun _ _ _ _ h => absurd h not_returns_throw

theorem grows_throw_bind (e : PlanError) (f : α → Planner β) : (throw e >>= f).Grows known out' := by
  intro w b w' built h
  obtain ⟨_, _, first, -⟩ := returns_bind.1 h
  exact absurd first not_returns_throw

theorem Grows.mono {m : Planner α} {more : List Plan} (h : m.Grows known out) (sub : known ⊆ more) :
    m.Grows more out :=
  fun w a w' built ha holds sub' => h w a w' built ha holds fun _ hp => sub' (sub hp)

/-- With a node everything below it is built. -/
theorem Grows.below {m : Planner α} (h : m.Grows (known.flatMap Plan.preorder) out) :
    m.Grows known out := by
  intro w a w' built ha holds sub
  refine h w a w' built ha holds fun q hq => ?_
  obtain ⟨p, hp, hq⟩ := List.mem_flatMap.1 hq
  exact holds.preorder_subset (sub hp) hq

theorem Grows.bind {m : Planner α} {f : α → Planner β} (h : m.Grows known out)
    (rest : ∀ a, m.Yields a → (f a).Grows (known ++ out a) out') : (m >>= f).Grows known out' := by
  intro w b w' built hb holds sub
  obtain ⟨a, v, first, second⟩ := returns_bind.1 hb
  obtain ⟨built₁, holds₁, keeps₁, has₁⟩ := h w a v built first holds sub
  have all : known ++ out a ⊆ built₁ := List.append_subset.2 ⟨fun _ hp => keeps₁ (sub hp), has₁⟩
  obtain ⟨built₂, holds₂, keeps₂, has₂⟩ := rest a first.yields v b w' built₁ second holds₁ all
  exact ⟨built₂, holds₂, fun _ hp => keeps₂ (keeps₁ hp), has₂⟩

theorem BuildsNothing.bind {m : Planner α} {f : α → Planner β} (h : m.BuildsNothing)
    (rest : ∀ a, m.Yields a → (f a).Grows known out') : (m >>= f).Grows known out' := by
  intro w b w' built hb holds sub
  obtain ⟨a, v, first, second⟩ := returns_bind.1 hb
  exact rest a first.yields v b w' built second (holds.mono (Nat.le_of_eq (h w a v first).symm)) sub

theorem grows_mapM {γ : Type} {f : γ → Planner α} {xs : List γ} (h : ∀ x ∈ xs, (f x).Grows known out) :
    (xs.mapM f).Grows known fun as => as.flatMap out := by
  induction xs with
  | nil => exact grows_pure (by simp)
  | cons x xs ih =>
    rw [List.mapM_cons]
    refine (h x (by simp)).bind fun a _ => ?_
    have others := (ih fun z hz => h z (by simp [hz])).mono (List.subset_append_left known (out a))
    refine others.bind fun as _ => grows_pure ?_
    rw [List.flatMap_cons]
    exact List.append_subset.2 ⟨fun _ hp => by simp [hp], fun _ hp => by simp [hp]⟩

end Planner

namespace Plan

theorem grows_build {op : Operator} {inputs known : List Plan} (sub : inputs ⊆ known) :
    (build op inputs).Grows known fun p => [p] := by
  intro w p w' built hp holds below
  obtain ⟨check, rfl, rfl⟩ := returns_build.1 hp
  have has : [node w.nextNode op inputs] ⊆ node w.nextNode op inputs :: built := by simp
  exact ⟨_, holds.cons_fresh (fun _ hx => below (sub hx)) check, List.subset_cons_self _ _, has⟩

theorem grows_filterNulls (input : Plan) (positions : List Nat) :
    (input.filterNulls positions).Grows [input] fun p => [p] := by
  unfold filterNulls
  apply (Planner.buildsNothing_ofExcept _).bind
  intro e? _
  cases e? with
  | none => exact Planner.grows_pure (by simp)
  | some e => exact grows_build (by simp)

theorem grows_indexProbe [ParamAllocator] (keys : Plan) (source : IndexSource) (params : Option GroupParams) :
    (indexProbe keys source params).Grows [keys] fun p => [p] := by
  unfold indexProbe
  refine (grows_build (by simp)).bind fun search _ => ?_
  exact Planner.buildsNothing_freshParam.bind fun limit _ => grows_build (by simp)

theorem grows_extendIntersect [ParamAllocator] (params : GroupParams) (merges : List Plan) (keys : Plan)
    (source : IndexSource) :
    (extendIntersect params merges keys source).Grows (keys :: merges) fun p => [p] := by
  unfold extendIntersect
  split
  · exact Planner.grows_throw_bind _ _
  · refine (Planner.buildsNothing_report _).bind fun _ _ => ?_
    have sub : [keys] ⊆ keys :: merges := by simp
    refine ((grows_indexProbe keys source (some params)).mono sub).bind fun merge _ => grows_build ?_
    intro p hp
    rcases List.mem_append.1 hp with hp | hp
    · simp [hp]
    · simp [List.mem_singleton.1 hp]

theorem grows_extendMerge [ParamAllocator] (params? : Option GroupParams) (search keys : Plan)
    (source : IndexSource) :
    (extendMerge params? search keys source).Grows [keys, search] fun p => [p] := by
  unfold extendMerge
  split
  · next i oldSource unique outer searchParams? oldKeys =>
    split
    · exact Planner.grows_throw_bind _ _
    · refine Planner.buildsNothing_freshGroup.bind fun params _ => ?_
      refine (Planner.buildsNothing_report _).bind fun _ _ => Planner.Grows.below ?_
      refine ((grows_indexProbe keys source (some params)).mono (by simp)).bind fun added _ => ?_
      refine (grows_build fun x hx => ?_).bind fun oldSearch _ => ?_
      · have below : x ∈ (node i (.ixSearch oldSource unique outer searchParams?) oldKeys).preorder :=
          mem_preorder_of_mem_inputs hx
        exact List.mem_append_left _ (List.mem_flatMap.2 ⟨_, by simp, below⟩)
      · refine Planner.buildsNothing_freshParam.bind fun limit _ => ?_
        exact (grows_build (by simp)).bind fun oldMerge _ => grows_build (by simp)
  · exact Planner.grows_throw _

theorem grows_extendProbe [ParamAllocator] (existing : Option Plan) (keys : Plan) (source : IndexSource) :
    (extendProbe existing keys source).Grows (keys :: existing.toList) fun p => [p] := by
  have below {p x : Plan} (hx : x ∈ p.inputs) : x ∈ (keys :: [p]).flatMap preorder :=
    List.mem_flatMap.2 ⟨p, by simp, mem_preorder_of_mem_inputs hx⟩
  have key {ps : List Plan} : keys ∈ (keys :: ps).flatMap preorder :=
    List.mem_flatMap.2 ⟨keys, by simp, self_mem_preorder keys⟩
  unfold extendProbe
  split
  · exact grows_indexProbe keys source none
  · next i params merges =>
    refine ((grows_extendIntersect params merges keys source).mono ?_).below
    exact List.cons_subset.2 ⟨key, fun x hx => below (p := node i (.ixIntersect params) merges) hx⟩
  · next i params limit search =>
    refine ((grows_extendMerge params search keys source).mono ?_).below
    exact List.cons_subset.2 ⟨key, fun x hx => below (p := node i (.ixMerge params limit) [search]) hx⟩
  · exact Planner.grows_throw _

end Plan

theorem SearchKey.grows_plan (lhsKeys rhsKeys : ColumnList) (lhsRow : RowType) (rhs : Plan)
    (a : KeyAssignment) :
    (SearchKey.plan lhsKeys rhsKeys lhsRow rhs a).Grows [rhs] fun p => [p] := by
  have planOf (keys : List SearchKey) : (planOf keys rhs).Grows [rhs] fun p => [p] := by
    refine (Plan.grows_filterNulls rhs _).bind fun filtered _ => ?_
    exact (Plan.grows_build (by simp)).bind fun projected _ => Plan.grows_build (by simp)
  rw [plan_eq]
  refine (Planner.buildsNothing_ofExcept _).bind fun keys _ => ?_
  split
  · exact (Planner.buildsNothing_report _).bind fun _ _ => planOf keys
  · exact planOf keys

namespace SemiJoinRule

theorem grows_throughIndex [ParamAllocator] (r : SemiJoinRule) (lhsKeys rhsKeys : ColumnList) (s : TableScan)
    (inputs : List Plan) (rhs : Plan) (bound : Option Plan) :
    (r.throughIndex lhsKeys rhsKeys s inputs rhs bound).Grows (rhs :: (inputs ++ bound.toList))
      Option.toList := by
  have nothing {known : List Plan} : (pure none : Planner (Option Plan)).Grows known Option.toList :=
    Planner.grows_pure (by simp)
  unfold throughIndex
  split
  · exact (Planner.buildsNothing_report _).bind fun _ _ => nothing
  split
  · exact (Planner.buildsNothing_report _).bind fun _ _ => nothing
  refine (Planner.buildsNothing_ofExcept _).bind fun existing hexisting => ?_
  have old : existing.toList ⊆ bound.toList := by
    have hexisting := Planner.yields_ofExcept.1 hexisting
    unfold SemiJoinRule.existing at hexisting
    split at hexisting
    · cases hexisting
      simp
    · split at hexisting
      · cases hexisting
        exact fun _ h => h
      · cases hexisting
    · cases hexisting
  refine (Planner.buildsNothing_ofExcept _).bind fun joinCols _ => ?_
  refine (Planner.buildsNothing_ofExcept _).bind fun _ _ => ?_
  refine Planner.BuildsNothing.bind ?_ fun c? _ => ?_
  · intro w c w' h
    obtain ⟨_, v, reported, rest⟩ := Planner.returns_bind.1 h
    rw [(Planner.returns_pure.1 rest).2, Planner.buildsNothing_forM_report _ _ _ _ _ reported]
  cases c? with
  | none => exact (Planner.buildsNothing_report _).bind fun _ _ => nothing
  | some c =>
    refine (Planner.buildsNothing_report _).bind fun _ _ => ?_
    have keyPlan := SearchKey.grows_plan lhsKeys rhsKeys s.rowType rhs c.assignment
    refine (keyPlan.mono (List.cons_subset_cons rhs (List.nil_subset _))).bind fun keys _ => ?_
    have probe := Plan.grows_extendProbe existing keys ⟨s.table, c.index.id, s.connection⟩
    refine (probe.mono fun x hx => ?_).bind fun probe _ => ?_
    · rcases List.mem_cons.1 hx with rfl | hx
      · simp
      · have := old hx
        simp_all
    · refine (Plan.grows_build fun x hx => ?_).bind fun scan _ => Planner.grows_pure (by simp)
      rcases List.mem_cons.1 hx with rfl | hx
      · simp
      · have : x ∈ inputs := Plan.mem_of_mem_residual hx
        simp [this]

theorem grows_transform [ParamAllocator] (r : SemiJoinRule) (bound : List Plan) :
    (r.transform bound).Grows bound Option.toList := by
  unfold transform
  split
  · next i lhsKeys rhsKeys lhs rhs j s inputs rest =>
    refine ((grows_throughIndex r lhsKeys rhsKeys s inputs rhs rest.head?).mono fun x hx => ?_).below
    simp only [List.flatMap_cons, List.mem_append, Plan.preorder_node]
    rcases List.mem_cons.1 hx with rfl | hx
    · simp
    · rcases List.mem_append.1 hx with hx | hx
      · exact .inr (.inl (List.mem_cons_of_mem _ (List.mem_flatMap.2 ⟨x, hx, Plan.self_mem_preorder x⟩)))
      · have : x ∈ rest := List.mem_of_mem_head? (by simpa using hx)
        exact .inr (.inr (List.mem_flatMap.2 ⟨x, this, Plan.self_mem_preorder x⟩))
  · exact Planner.grows_pure (by simp)

theorem grows_attempt [ParamAllocator] (r : SemiJoinRule) (p : Plan) :
    (r.toRule.attempt p).Grows [p] Option.toList := by
  unfold Rule.attempt
  split
  · next bound hb =>
    have known : bound ⊆ [p].flatMap Plan.preorder := by
      simpa using Pattern.bind?_subset r.shape.pattern p hb
    exact ((r.grows_transform bound).mono known).below
  · exact Planner.grows_pure (by simp)

end SemiJoinRule

namespace RuleSet

theorem grows_offer [ParamAllocator] (r : SemiJoinRule) (p : Plan) :
    (offer r.toRule p).Grows [p] (List.map Alternative.replacement) := by
  intro w alts w' built h holds known
  obtain ⟨v, q?, node, -, attempted, rfl⟩ := returns_offer h
  obtain ⟨built', held, keeps, has⟩ := r.grows_attempt p v q? w' built attempted
    (holds.mono (Nat.le_of_eq node.symm)) known
  refine ⟨built', held, keeps, ?_⟩
  cases q? with
  | none => exact List.nil_subset _
  | some q => exact has

/-- Firing builds the replacements it returns. -/
theorem grows_alternatives [ParamAllocator] (rules : List SemiJoinRule) (root : Plan) :
    (alternatives (rules.map SemiJoinRule.toRule) root).Grows [root]
      (List.map Alternative.replacement) := by
  have each : ∀ p ∈ root.preorder, ((rules.map SemiJoinRule.toRule).mapM fun rule => offer rule p).Grows
      ([root].flatMap Plan.preorder) fun offers => offers.flatMap (List.map Alternative.replacement) := by
    intro p hp
    have known : [p] ⊆ [root].flatMap Plan.preorder := by simpa using hp
    refine (Planner.grows_mapM fun rule hrule => ?_).mono known
    obtain ⟨r, -, rfl⟩ := List.mem_map.1 hrule
    exact grows_offer r p
  unfold alternatives
  refine ((Planner.grows_mapM each).bind fun offers _ => Planner.grows_pure ?_).below
  intro q hq
  simp only [List.mem_map, List.mem_flatten, List.mem_append, List.mem_flatMap] at hq ⊢
  obtain ⟨a, ⟨as, ⟨ass, hass, has⟩, ha⟩, rfl⟩ := hq
  exact .inr ⟨ass, hass, as, has, a, ha, rfl⟩

end RuleSet

/-- A replacement builds the tree it returns over nodes of the old tree and the new plan. -/
theorem Plan.grows_replace (target replacement root : Plan) :
    (replace target replacement root).Grows [replacement, root] fun q => [q] := by
  induction root with
  | node i op inputs ih =>
    rw [replace_node]
    split
    · exact Planner.grows_pure (by simp)
    · have each : ∀ x ∈ inputs, (replace target replacement x).Grows
          ([replacement, node i op inputs].flatMap preorder) fun q => [q] := by
        intro x hx
        refine (ih x hx).mono ?_
        intro z hz
        rcases List.mem_cons.1 hz with rfl | hz
        · simp
        · obtain rfl := List.mem_singleton.1 hz
          have below : z ∈ (node i op inputs).preorder := mem_preorder_of_mem_inputs hx
          exact List.mem_flatMap.2 ⟨_, by simp, below⟩
      refine ((Planner.grows_mapM each).bind fun ys _ => ?_).below
      split
      · exact Planner.grows_pure (by simp)
      · refine grows_build fun y hy => List.mem_append_right _ (List.mem_flatMap.2 ⟨y, hy, ?_⟩)
        exact List.mem_singleton_self y

end QueryPlan
