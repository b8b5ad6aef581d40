import QueryPlan.Proofs.Renaming
import QueryPlan.Proofs.Rewriting

/-!
# Steps beside each other

Two planning steps that do the same thing in different workspaces fail with the same error, or both
return, and they leave workspaces that are related as those they started in (`Planner.Parallel`). The
steps that build a plan decide nothing by the identities of nodes, and by parameters only whether two of them are
equal. So where the next parameter lies some places further on, they build the same plan with its parameters
that much further on, and with the same nodes if these start alike (`Planner.Beside`).
-/
namespace QueryPlan

namespace Planner

variable {α β γ δ : Type} {I : Workspace → Workspace → Prop} {R : α → β → Prop} {S : γ → δ → Prop}

/-- Both steps have failed with one error, or both have returned values that `R` relates; the workspaces
they leave are related by `I`. -/
inductive Agree (I : Workspace → Workspace → Prop) (R : α → β → Prop) :
    Except PlanError α × Workspace → Except PlanError β × Workspace → Prop
  | returned {a : α} {b : β} {w w' : Workspace} (value : R a b) (left : I w w') : Agree I R (.ok a, w) (.ok b, w')
  | failed {e : PlanError} {w w' : Workspace} (left : I w w') : Agree I R (.error e, w) (.error e, w')

/-- Started in workspaces that `I` relates, the steps agree. -/
def Parallel (I : Workspace → Workspace → Prop) (R : α → β → Prop) (m : Planner α) (m' : Planner β) : Prop :=
  ∀ w w', I w w' → Agree I R (m.outcome w) (m'.outcome w')

theorem parallel_pure {a : α} {b : β} (value : R a b) : Parallel I R (pure a) (pure b) :=
  fun _ _ start => .returned value start

theorem parallel_throw (e : PlanError) : Parallel I R (throw e) (throw e) := fun _ _ start => .failed start

theorem parallel_throw_bind (e : PlanError) (f : α → Planner γ) (f' : β → Planner δ) :
    Parallel I S (throw e >>= f) (throw e >>= f') :=
  fun _ _ start => .failed start

theorem parallel_ofExcept (r : Except PlanError α) : Parallel I Eq (ofExcept r) (ofExcept r) := by
  intro w w' start
  rw [outcome_ofExcept, outcome_ofExcept]
  cases r with
  | error e => exact .failed start
  | ok a => exact .returned rfl start

/-- What the steps return may be related in a weaker way. -/
theorem Parallel.imp {T : α → β → Prop} {m : Planner α} {m' : Planner β} (h : Parallel I R m m')
    (himp : ∀ a b, R a b → T a b) : Parallel I T m m' := by
  intro w w' start
  have agree := h w w' start
  generalize m.outcome w = x at agree ⊢
  generalize m'.outcome w' = y at agree ⊢
  cases agree with
  | returned value left => exact .returned (himp _ _ value) left
  | failed left => exact .failed left

theorem Parallel.bind {m : Planner α} {m' : Planner β} {f : α → Planner γ} {f' : β → Planner δ}
    (first : Parallel I R m m') (rest : ∀ a b, R a b → Parallel I S (f a) (f' b)) :
    Parallel I S (m >>= f) (m' >>= f') := by
  intro w w' start
  have agree := first w w' start
  rw [outcome_bind, outcome_bind]
  generalize m.outcome w = x at agree ⊢
  generalize m'.outcome w' = y at agree ⊢
  cases agree with
  | returned value left => exact rest _ _ value _ _ left
  | failed left => exact .failed left

/-- Steps that start with the same step go on with the same value. -/
theorem Parallel.bind_same {m m' : Planner α} {f : α → Planner γ} {f' : α → Planner δ}
    (first : Parallel I Eq m m') (rest : ∀ a, Parallel I S (f a) (f' a)) :
    Parallel I S (m >>= f) (m' >>= f') :=
  first.bind fun a _ same => same ▸ rest a

/-- What agrees is the same but for what the relation leaves open. -/
theorem Agree.map_eq {α' : Type} {f : α → α'} {g : β → α'} {x : Except PlanError α × Workspace}
    {y : Except PlanError β × Workspace} (h : Agree I (fun a b => f a = g b) x y) :
    x.1.map f = y.1.map g ∧ I x.2 y.2 := by
  cases h with
  | returned value left => exact ⟨congrArg Except.ok value, left⟩
  | failed left => exact ⟨rfl, left⟩

/-- The next parameter of the second workspace is that of the first one `d` places further on. Whether the next
identity has to be the same is up to `ids`. -/
def Beside (ids : Prop) (d : Nat) (w w' : Workspace) : Prop :=
  (ids → w'.nextNode = w.nextNode) ∧ w'.nextParam = w.nextParam.advance d

variable {ids : Prop} {d : Nat}

theorem parallel_freshNode : Parallel (Beside ids d) (fun i j => ids → j = i) freshNode freshNode :=
  fun _ _ start => .returned start.1 ⟨fun all => congrArg (· + 1) (start.1 all), start.2⟩

theorem parallel_freshParam : Parallel (Beside ids d) (fun i j => j = i.advance d) freshParam freshParam := by
  intro w w' start
  refine .returned start.2 ⟨start.1, ?_⟩
  change w'.nextParam.next = w.nextParam.next.advance d
  rw [start.2, Id.next_advance]

theorem parallel_freshGroup : Parallel (Beside ids d) (fun g h => h = g.advance d) freshGroup freshGroup := by
  refine parallel_freshParam.bind fun startRid _ value => parallel_freshParam.bind fun rowLimit _ value' => ?_
  subst value value'
  exact parallel_pure rfl

theorem parallel_report (e e' : Event) : Parallel (Beside ids d) Eq (report e) (report e') :=
  fun _ _ start => .returned rfl start

/-- Reports take nothing, however many there are. -/
theorem parallel_forM_report {ε : Type} (f g : ε → Event) (xs ys : List ε) :
    Parallel (Beside ids d) Eq (xs.forM fun x => report (f x)) (ys.forM fun y => report (g y)) := by
  have returns (h : ε → Event) (zs : List ε) (w : Workspace) :
      ∃ log, (zs.forM fun z => report (h z)).outcome w = (.ok (), { w with log := log }) := by
    induction zs generalizing w with
    | nil => exact ⟨w.log, rfl⟩
    | cons z zs ih => exact ih { w with log := h z :: w.log }
  intro w w' start
  obtain ⟨log, left⟩ := returns f xs w
  obtain ⟨log', left'⟩ := returns g ys w'
  rw [left, left']
  exact .returned rfl start

/-- A choice does not depend on whether the search may exit early. -/
theorem parallel_chooseIndex (indexes : List Index) (joinCols : List ColumnId)
    (earlyExit earlyExit' : Bool) : Parallel (Beside ids d) Eq (chooseIndex indexes joinCols earlyExit)
      (chooseIndex indexes joinCols earlyExit') := by
  unfold chooseIndex
  refine (parallel_forM_report _ _ _ _).bind_same fun _ => parallel_pure ?_
  exact (Selection.choice_earlyExit _ _ _).trans (Selection.choice_earlyExit _ _ _).symm

end Planner

open Planner

variable {ids : Prop} {d : Nat}

namespace Plan

variable {keys keys' : Plan}

theorem parallel_build (op : Operator) {xs ys : List Plan} (inputs : List.Forall₂ (Counterpart ids d) xs ys) :
    Parallel (Beside ids d) (Counterpart ids d) (build op xs) (build (op.advance d) ys) := by
  have rows : ys.map rowType = xs.map rowType := map_eq_map_of_forall₂ (inputs.imp fun _ _ h => h.rowType_eq)
  unfold build
  rw [Operator.check_advance, rows]
  refine (parallel_ofExcept _).bind_same fun _ => parallel_freshNode.bind fun i j same => ?_
  exact parallel_pure (.node same inputs)

theorem parallel_filterNulls {input input' : Plan} (same : Counterpart ids d input input')
    (positions : List Nat) :
    Parallel (Beside ids d) (Counterpart ids d) (input.filterNulls positions) (input'.filterNulls positions) := by
  unfold filterNulls
  rw [same.rowType_eq]
  refine (parallel_ofExcept _).bind_same fun e? => ?_
  cases e? with
  | none => exact parallel_pure same
  | some e => exact parallel_build (.filter e) (.cons same .nil)

theorem parallel_indexProbe (same : Counterpart ids d keys keys') (source : IndexSource)
    (params : Option GroupParams) :
    Parallel (Beside ids d) (Counterpart ids d) (indexProbe keys source params)
      (indexProbe keys' source (params.map (.advance d))) := by
  unfold indexProbe
  refine (parallel_build (.ixSearch source true false params) (.cons same .nil)).bind fun _ _ searches => ?_
  refine parallel_freshParam.bind fun limit _ further => ?_
  subst further
  exact parallel_build (.ixMerge params limit) (.cons searches .nil)

theorem parallel_extendIntersect (same : Counterpart ids d keys keys') (params : GroupParams)
    {merges merges' : List Plan} (inputs : List.Forall₂ (Counterpart ids d) merges merges')
    (source : IndexSource) :
    Parallel (Beside ids d) (Counterpart ids d) (extendIntersect params merges keys source)
      (extendIntersect (params.advance d) merges' keys' source) := by
  have shared : merges'.all (carries (params.advance d)) = merges.all (carries params) := by
    induction inputs with
    | nil => rfl
    | cons head _ ih => rw [List.all_cons, List.all_cons, head.carries_eq, ih]
  unfold extendIntersect
  rw [shared]
  split
  · exact parallel_throw_bind _ _ _
  · refine (parallel_report _ _).bind_same fun _ => ?_
    refine (parallel_indexProbe same source (some params)).bind fun merge merge' added => ?_
    exact parallel_build (.ixIntersect params) (List.rel_append inputs (.cons added .nil))

theorem parallel_extendMerge (same : Counterpart ids d keys keys') (params? : Option GroupParams)
    {search search' : Plan} (searches : Counterpart ids d search search') (source : IndexSource) :
    Parallel (Beside ids d) (Counterpart ids d) (extendMerge params? search keys source)
      (extendMerge (params?.map (.advance d)) search' keys' source) := by
  cases searches with
  | @node _ _ op _ _ _ inputs =>
  cases op with
  | ixSearch oldSource unique outer searchParams? =>
    simp only [extendMerge, Operator.advance, Option.isSome_map]
    split
    · exact parallel_throw_bind _ _ _
    · refine parallel_freshGroup.bind fun params _ further => (parallel_report _ _).bind_same fun _ => ?_
      subst further
      refine (parallel_indexProbe same source (some params)).bind fun _ _ newMerges => ?_
      refine (parallel_build (.ixSearch oldSource unique outer (some params)) inputs).bind fun _ _ searches => ?_
      refine parallel_freshParam.bind fun limit _ further => ?_
      subst further
      refine (parallel_build (.ixMerge (some params) limit) (.cons searches .nil)).bind fun _ _ oldMerges => ?_
      exact parallel_build (.ixIntersect params) (.cons oldMerges (.cons newMerges .nil))
  | _ => exact parallel_throw _

theorem parallel_extendProbe (same : Counterpart ids d keys keys') {existing existing' : Option Plan}
    (old : Option.Rel (Counterpart ids d) existing existing') (source : IndexSource) :
    Parallel (Beside ids d) (Counterpart ids d) (extendProbe existing keys source)
      (extendProbe existing' keys' source) := by
  cases old with
  | none => exact parallel_indexProbe same source none
  | some old =>
  cases old with
  | @node _ _ op _ _ _ inputs =>
  cases op with
  | ixIntersect params => exact parallel_extendIntersect same params inputs source
  | ixMerge params? limit =>
    rcases inputs with _ | ⟨searches, _ | ⟨_, _⟩⟩
    · exact parallel_throw _
    · exact parallel_extendMerge same params? searches source
    · exact parallel_throw _
  | _ => exact parallel_throw _

end Plan

open Plan

theorem SearchKey.parallel_plan (lhsKeys rhsKeys : ColumnList) (lhsRow : RowType) {rhs rhs' : Plan}
    (same : Counterpart ids d rhs rhs') (a : KeyAssignment) :
    Parallel (Beside ids d) (Counterpart ids d) (plan lhsKeys rhsKeys lhsRow rhs a)
      (plan lhsKeys rhsKeys lhsRow rhs' a) := by
  have planOf (keys : List SearchKey) :
      Parallel (Beside ids d) (Counterpart ids d) (planOf keys rhs) (planOf keys rhs') := by
    refine (parallel_filterNulls same _).bind fun _ _ filtered => ?_
    refine (parallel_build (.project (projections keys)) (.cons filtered .nil)).bind fun _ _ projected => ?_
    exact parallel_build (.sort (ColumnList.iota keys.length) true) (.cons projected .nil)
  rw [plan_eq, plan_eq, same.rowType_eq]
  refine (parallel_ofExcept _).bind_same fun keys => ?_
  split
  · exact (parallel_report _ _).bind_same fun _ => planOf keys
  · exact planOf keys

/-- Rules that differ in whether a search may exit early at most, on counterparts of one scan. That they find
counterparts of one probe is left to the places where the scans are known: whether a probe is the first input
is a matter of identities. -/
theorem SemiJoinRule.parallel_throughIndex {r r' : SemiJoinRule} (shape : r'.shape = r.shape)
    (intersect : r'.options.intersect = r.options.intersect) (lhsKeys rhsKeys : ColumnList) (s : TableScan)
    {xs ys : List Plan} (inputs : List.Forall₂ (Counterpart ids d) xs ys) {rhs rhs' : Plan}
    (same : Counterpart ids d rhs rhs') {bound bound' : Option Plan}
    (found : Parallel (Beside ids d) (Option.Rel (Counterpart ids d))
      (Planner.ofExcept (r.existing s xs bound)) (Planner.ofExcept (r'.existing s ys bound'))) :
    Parallel (Beside ids d) (Option.Rel (Counterpart ids d))
      (r.throughIndex lhsKeys rhsKeys s xs rhs bound) (r'.throughIndex lhsKeys rhsKeys s ys rhs' bound') := by
  have decline (e e' : Event) : Parallel (Beside ids d) (Option.Rel (Counterpart ids d))
      (report e >>= fun _ => pure none) (report e' >>= fun _ => pure none) :=
    (parallel_report e e').bind_same fun _ => parallel_pure .none
  unfold throughIndex
  rw [defers_eq shape s inputs, shape, intersect]
  split
  · exact decline _ _
  split
  · exact decline _ _
  refine found.bind fun existing existing' old => ?_
  refine (parallel_ofExcept _).bind_same fun joinCols => ?_
  refine (parallel_ofExcept _).bind_same fun _ => ?_
  refine (parallel_chooseIndex _ _ _ _).bind_same fun c? => ?_
  cases c? with
  | none => exact decline _ _
  | some c =>
    refine (parallel_report _ _).bind_same fun _ => ?_
    refine (SearchKey.parallel_plan _ _ _ same _).bind fun keys keys' searched => ?_
    refine (parallel_extendProbe searched old _).bind fun probe probe' probes => ?_
    refine (parallel_build (.tableScan s) (.cons probes (forall₂_residual inputs))).bind fun _ _ scans => ?_
    exact parallel_pure (.some scans)

end QueryPlan
