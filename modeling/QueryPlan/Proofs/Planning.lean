import Mathlib.Data.List.Forall2
import QueryPlan.Plan.Basic

/-!
# Outcomes of planning steps

A planning step returns a value and a new workspace, or it fails. The rules below open a step that
is known to return into its parts, and show that a composed step returns wherever its parts do. A
result that does not depend on the workspace is what the step ends with (`Planner.Ends`).
-/
namespace QueryPlan
namespace Planner

variable {α β : Type}

/-- What the step does in the workspace `w`: its result and the workspace it leaves. -/
def outcome (m : Planner α) (w : Workspace) : Except PlanError α × Workspace := m w

/-- Started in the workspace `w`, the step yields `a` and leaves the workspace `w'`. -/
def Returns (m : Planner α) (w : Workspace) (a : α) (w' : Workspace) : Prop := m.outcome w = (.ok a, w')

/-- Started in the workspace `w`, the step fails with `e` and leaves the workspace `w'`. -/
def Fails (m : Planner α) (w : Workspace) (e : PlanError) (w' : Workspace) : Prop :=
  m.outcome w = (.error e, w')

/-- The step yields `a` from some workspace. -/
def Yields (m : Planner α) (a : α) : Prop := ∃ w w', m.Returns w a w'

/-- The step fails in no workspace. -/
def Succeeds (m : Planner α) : Prop := ∀ w, ∃ a w', m.Returns w a w'

/-- Whatever the workspace, the result of the step has the property. -/
def Ends (m : Planner α) (P : Except PlanError α → Prop) : Prop := ∀ w, P (m.outcome w).1

theorem Returns.yields {m : Planner α} {w w' : Workspace} {a : α} (h : m.Returns w a w') : m.Yields a :=
  ⟨w, w', h⟩

/-- Does the step return, and does what it leads to pass the test? -/
def leadsTo (m : Planner α) (w : Workspace) (test : α → Workspace → Bool) : Bool :=
  match m.outcome w with
  | (.ok a, v) => test a v
  | (.error _, _) => false

theorem exists_of_leadsTo {m : Planner α} {w : Workspace} {test : α → Workspace → Bool}
    (h : m.leadsTo w test = true) : ∃ a v, m.Returns w a v ∧ test a v = true := by
  unfold leadsTo at h
  split at h
  · next a v returned => exact ⟨a, v, returned, h⟩
  · cases h

theorem exists_some_of_leadsTo {m : Planner (Option α)} {w : Workspace} {test : α → Workspace → Bool}
    (h : m.leadsTo w (fun a? v => a?.any fun a => test a v) = true) :
    ∃ a v, m.Returns w (some a) v ∧ test a v = true := by
  obtain ⟨a?, v, returned, passes⟩ := exists_of_leadsTo h
  cases a? with
  | none => cases passes
  | some a => exact ⟨a, v, returned, passes⟩

theorem outcome_pure (a : α) (w : Workspace) : (pure a : Planner α).outcome w = (.ok a, w) := rfl

theorem outcome_throw (e : PlanError) (w : Workspace) :
    (throw e : Planner α).outcome w = (.error e, w) := rfl

theorem outcome_ofExcept (r : Except PlanError α) (w : Workspace) :
    (ofExcept r).outcome w = (r, w) := rfl

theorem outcome_bind (m : Planner α) (f : α → Planner β) (w : Workspace) :
    (m >>= f).outcome w =
      match m.outcome w with
      | (.ok a, v) => (f a).outcome v
      | (.error e, v) => (.error e, v) := by
  unfold outcome
  simp only [bind, ExceptT.bind, ExceptT.mk, StateT.bind]
  cases m w with
  | mk r v => cases r <;> rfl

@[simp] theorem returns_pure {a b : α} {w w' : Workspace} :
    (pure a : Planner α).Returns w b w' ↔ b = a ∧ w' = w := by
  simp [Returns, outcome_pure, eq_comm]

@[simp] theorem not_returns_throw {e : PlanError} {a : α} {w w' : Workspace} :
    ¬(throw e : Planner α).Returns w a w' := by
  simp [Returns, outcome_throw]

@[simp] theorem returns_ofExcept {r : Except PlanError α} {a : α} {w w' : Workspace} :
    (ofExcept r).Returns w a w' ↔ r = .ok a ∧ w' = w := by
  simp [Returns, outcome_ofExcept, eq_comm]

theorem returns_bind {m : Planner α} {f : α → Planner β} {w w' : Workspace} {b : β} :
    (m >>= f).Returns w b w' ↔ ∃ a v, m.Returns w a v ∧ (f a).Returns v b w' := by
  unfold Returns
  rw [outcome_bind]
  rcases m.outcome w with ⟨_ | a, v⟩
  · simp
  · simp

/-- A sequence fails where its first step does, or where that returns and the second step fails. -/
theorem fails_bind {m : Planner α} {f : α → Planner β} {w w' : Workspace} {e : PlanError} :
    (m >>= f).Fails w e w' ↔ m.Fails w e w' ∨ ∃ a v, m.Returns w a v ∧ (f a).Fails v e w' := by
  unfold Fails Returns
  rw [outcome_bind]
  rcases m.outcome w with ⟨_ | a, v⟩
  · simp
  · simp

theorem fails_ofExcept {r : Except PlanError α} {w w' : Workspace} {e : PlanError} :
    (ofExcept r).Fails w e w' ↔ r = .error e ∧ w' = w := by
  simp [Fails, outcome_ofExcept, eq_comm]

theorem fails_throw (e : PlanError) (w : Workspace) : (throw e : Planner α).Fails w e w :=
  outcome_throw e w

@[simp] theorem returns_map {m : Planner α} {f : α → β} {w w' : Workspace} {b : β} :
    (f <$> m).Returns w b w' ↔ ∃ a, m.Returns w a w' ∧ b = f a := by
  rw [map_eq_pure_bind, returns_bind]
  constructor
  · rintro ⟨a, v, h, h'⟩
    obtain ⟨rfl, rfl⟩ := returns_pure.1 h'
    exact ⟨a, h, rfl⟩
  · rintro ⟨a, h, rfl⟩
    exact ⟨a, w', h, returns_pure.2 ⟨rfl, rfl⟩⟩

@[simp] theorem returns_freshNode {w w' : Workspace} {i : NodeId} :
    freshNode.Returns w i w' ↔ i = w.nextNode ∧ w' = { w with nextNode := w.nextNode + 1 } := by
  constructor
  · intro h
    cases h
    exact ⟨rfl, rfl⟩
  · rintro ⟨rfl, rfl⟩
    rfl

@[simp] theorem returns_freshParam [ParamAllocator] {w w' : Workspace} {i : ParamId} :
    freshParam.Returns w i w' ↔
      i = ParamAllocator.issue w.nextParam ∧ w' = { w with nextParam := w.nextParam.next } := by
  constructor
  · intro h
    cases h
    exact ⟨rfl, rfl⟩
  · rintro ⟨rfl, rfl⟩
    rfl

@[simp] theorem returns_report {e : Event} {w w' : Workspace} {u : Unit} :
    (report e).Returns w u w' ↔ w' = { w with log := e :: w.log } := by
  constructor
  · intro h
    cases h
    rfl
  · rintro rfl
    rfl

/-- The group consists of the parameters that are handed out next. -/
theorem returns_freshGroup [ParamAllocator] {w w' : Workspace} {g : GroupParams} :
    freshGroup.Returns w g w' ↔
      g = ⟨ParamAllocator.issue w.nextParam, ParamAllocator.issue w.nextParam.next⟩ ∧
        w' = { w with nextParam := w.nextParam.next.next } := by
  simp [freshGroup, returns_bind, and_comm]

theorem yields_pure {a b : α} : (pure a : Planner α).Yields b ↔ b = a := by
  constructor
  · rintro ⟨w, w', h⟩
    exact (returns_pure.1 h).1
  · rintro rfl
    exact ⟨{}, {}, returns_pure.2 ⟨rfl, rfl⟩⟩

theorem yields_bind {m : Planner α} {f : α → Planner β} {b : β} (h : (m >>= f).Yields b) :
    ∃ a, m.Yields a ∧ (f a).Yields b := by
  obtain ⟨w, w', h⟩ := h
  obtain ⟨a, v, first, rest⟩ := returns_bind.1 h
  exact ⟨a, first.yields, rest.yields⟩

theorem yields_ofExcept {r : Except PlanError α} {a : α} : (ofExcept r).Yields a ↔ r = .ok a := by
  constructor
  · rintro ⟨w, w', h⟩
    exact (returns_ofExcept.1 h).1
  · rintro rfl
    exact ⟨{}, {}, returns_ofExcept.2 ⟨rfl, rfl⟩⟩

@[simp] theorem not_yields_throw {e : PlanError} {a : α} : ¬(throw e : Planner α).Yields a := by
  simp [Yields]

theorem Succeeds.not_fails {m : Planner α} (h : m.Succeeds) {w w' : Workspace} {e : PlanError} :
    ¬m.Fails w e w' := by
  obtain ⟨a, v, returned⟩ := h w
  intro failed
  cases returned.symm.trans failed

theorem succeeds_pure (a : α) : (pure a : Planner α).Succeeds := fun w => ⟨a, w, by simp⟩

theorem succeeds_ofExcept {r : Except PlanError α} {a : α} (h : r = .ok a) : (ofExcept r).Succeeds :=
  fun w => ⟨a, w, by simp [h]⟩

theorem succeeds_freshParam [ParamAllocator] : freshParam.Succeeds :=
  fun _ => ⟨_, _, returns_freshParam.2 ⟨rfl, rfl⟩⟩

theorem succeeds_freshGroup [ParamAllocator] : freshGroup.Succeeds :=
  fun _ => ⟨_, _, returns_freshGroup.2 ⟨rfl, rfl⟩⟩

theorem succeeds_report (e : Event) : (report e).Succeeds := fun _ => ⟨(), _, returns_report.2 rfl⟩

/-- A sequence succeeds if its first step does and its second step does for every value the first
may yield. -/
theorem Succeeds.bind {m : Planner α} {f : α → Planner β} (h : m.Succeeds)
    (rest : ∀ a, m.Yields a → (f a).Succeeds) : (m >>= f).Succeeds := by
  intro w
  obtain ⟨a, v, first⟩ := h w
  obtain ⟨b, w', second⟩ := rest a first.yields v
  exact ⟨b, w', returns_bind.2 ⟨a, v, first, second⟩⟩

theorem Succeeds.map {m : Planner α} (h : m.Succeeds) (f : α → β) : (f <$> m).Succeeds := by
  intro w
  obtain ⟨a, w', first⟩ := h w
  exact ⟨f a, w', returns_map.2 ⟨a, first, rfl⟩⟩

theorem succeeds_mapM {f : α → Planner β} {xs : List α} (h : ∀ x ∈ xs, (f x).Succeeds) :
    (xs.mapM f).Succeeds := by
  induction xs with
  | nil => exact succeeds_pure []
  | cons x xs ih =>
    rw [List.mapM_cons]
    apply (h x (by simp)).bind
    intro y _
    apply (ih fun z hz => h z (by simp [hz])).bind
    intro ys _
    exact succeeds_pure (y :: ys)

theorem succeeds_forM {f : α → Planner Unit} {xs : List α} (h : ∀ x ∈ xs, (f x).Succeeds) :
    (xs.forM f).Succeeds := by
  induction xs with
  | nil => exact succeeds_pure ()
  | cons x xs ih => exact (h x (by simp)).bind fun _ _ => ih fun z hz => h z (by simp [hz])

theorem yields_mapM {f : α → Planner β} {xs : List α} {ys : List β} (h : (xs.mapM f).Yields ys) :
    List.Forall₂ (fun x y => (f x).Yields y) xs ys := by
  induction xs generalizing ys with
  | nil =>
    obtain rfl := yields_pure.1 h
    exact .nil
  | cons x xs ih =>
    rw [List.mapM_cons] at h
    obtain ⟨y, first, h⟩ := yields_bind h
    obtain ⟨zs, rest, h⟩ := yields_bind h
    obtain rfl := yields_pure.1 h
    exact .cons first (ih rest)

/-- What every step of a sequence keeps true of the workspace, the sequence keeps true. -/
theorem forall₂_of_returns_mapM {I : Workspace → Prop} {R : α → β → Prop} {f : α → Planner β}
    {xs : List α} (each : ∀ x ∈ xs, ∀ w y w', I w → (f x).Returns w y w' → I w' ∧ R x y)
    {w w' : Workspace} {ys : List β} (start : I w) (h : (xs.mapM f).Returns w ys w') :
    I w' ∧ List.Forall₂ R xs ys := by
  induction xs generalizing w ys with
  | nil =>
    obtain ⟨rfl, rfl⟩ := returns_pure.1 h
    exact ⟨start, .nil⟩
  | cons x xs ih =>
    rw [List.mapM_cons] at h
    obtain ⟨y, v, first, h⟩ := returns_bind.1 h
    obtain ⟨zs, v', rest, h⟩ := returns_bind.1 h
    obtain ⟨rfl, rfl⟩ := returns_pure.1 h
    obtain ⟨between, related⟩ := each x (by simp) w y v start first
    obtain ⟨last, others⟩ := ih (fun z hz => each z (by simp [hz])) between rest
    exact ⟨last, .cons related others⟩

/-- A sequence of steps fails at one of them, and what the steps before it keep true of the workspace holds
there. -/
theorem exists_of_fails_mapM {I : Workspace → Prop} {f : α → Planner β} {xs : List α}
    (each : ∀ x ∈ xs, ∀ w y w', I w → (f x).Returns w y w' → I w') {w w' : Workspace} {e : PlanError}
    (start : I w) (h : (xs.mapM f).Fails w e w') : ∃ x ∈ xs, ∃ v, I v ∧ (f x).Fails v e w' := by
  induction xs generalizing w with
  | nil => cases h
  | cons x xs ih =>
    rw [List.mapM_cons] at h
    rcases fails_bind.1 h with failed | ⟨y, v, first, h⟩
    · exact ⟨x, by simp, w, start, failed⟩
    rcases fails_bind.1 h with failed | ⟨zs, v', -, h⟩
    · have between := each x (by simp) w y v start first
      obtain ⟨z, hz, rest⟩ := ih (fun z hz => each z (by simp [hz])) between failed
      exact ⟨z, by simp [hz], rest⟩
    · cases h

theorem mapM_eq_pure {f : α → Planner α} {xs : List α} (h : ∀ x ∈ xs, f x = pure x) :
    xs.mapM f = pure xs := by
  induction xs with
  | nil => rfl
  | cons x xs ih =>
    rw [List.mapM_cons, h x (by simp), pure_bind, ih fun z hz => h z (by simp [hz]), pure_bind]

theorem ends_pure {a : α} {P : Except PlanError α → Prop} : (pure a : Planner α).Ends P ↔ P (.ok a) :=
  ⟨fun h => h {}, fun h _ => h⟩

theorem ends_ofExcept {r : Except PlanError α} : (ofExcept r).Ends (· = r) := fun _ => rfl

/-- A step succeeds if no error has the property that its results have. -/
theorem Ends.succeeds {m : Planner α} {P : Except PlanError α → Prop} (h : m.Ends P)
    (sound : ∀ e, ¬P (.error e)) : m.Succeeds := by
  intro w
  have result := h w
  unfold Returns
  rcases hw : m.outcome w with ⟨_ | a, v⟩
  · rw [hw] at result
    exact absurd result (sound _)
  · exact ⟨a, v, rfl⟩

theorem Succeeds.ends_bind {m : Planner α} {f : α → Planner β} {P : Except PlanError β → Prop}
    (h : m.Succeeds) (rest : ∀ a, m.Yields a → (f a).Ends P) : (m >>= f).Ends P := by
  intro w
  obtain ⟨a, v, returned⟩ := h w
  rw [outcome_bind, returned]
  exact rest a returned.yields v

/-- The first step that fails ends a sequence. -/
theorem ends_error_bind {m : Planner α} {f : α → Planner β} {P : Except PlanError β → Prop}
    {e : PlanError} (h : m.Ends (· = .error e)) (fails : P (.error e)) : (m >>= f).Ends P := by
  intro w
  have result := h w
  rw [outcome_bind]
  rcases hw : m.outcome w with ⟨_ | a, v⟩
  · rw [hw] at result
    obtain rfl := Except.error.inj result
    exact fails
  · rw [hw] at result
    cases result

end Planner

/-- A fallible map succeeds exactly when it does on every element. -/
theorem mapM_eq_ok_iff {ε α β : Type} {f : α → Except ε β} {xs : List α} {ys : List β} :
    xs.mapM f = .ok ys ↔ List.Forall₂ (fun x y => f x = .ok y) xs ys := by
  induction xs generalizing ys with
  | nil => cases ys <;> simp [pure, Except.pure]
  | cons x xs ih =>
    rw [List.mapM_cons]
    cases hx : f x with
    | error e => cases ys <;> simp [bind, Except.bind, hx]
    | ok y =>
      cases hxs : xs.mapM f with
      | error e => cases ys <;> simp [bind, Except.bind, ← ih, hx, hxs]
      | ok zs => cases ys <;> simp [bind, Except.bind, pure, Except.pure, ← ih, hx, hxs]

theorem exists_mapM_eq_ok {ε α β : Type} {f : α → Except ε β} {xs : List α}
    (h : ∀ x ∈ xs, ∃ y, f x = .ok y) :
    ∃ ys, xs.mapM f = .ok ys := by
  simp only [mapM_eq_ok_iff]
  induction xs with
  | nil => exact ⟨[], .nil⟩
  | cons x xs ih =>
    obtain ⟨y, hy⟩ := h x (by simp)
    obtain ⟨ys, hys⟩ := ih fun z hz => h z (by simp [hz])
    exact ⟨y :: ys, .cons hy hys⟩

/-- A fallible map fails exactly as the first element does on which it fails. -/
theorem mapM_eq_error_iff {ε α β : Type} {f : α → Except ε β} {xs : List α} {e : ε} :
    xs.mapM f = .error e ↔ ∃ before x after, xs = before ++ x :: after ∧
      (∀ y ∈ before, ∀ e', f y ≠ .error e') ∧ f x = .error e := by
  induction xs with
  | nil => simp [pure, Except.pure]
  | cons x xs ih =>
    simp only [List.mapM_cons, List.cons_eq_append_iff]
    cases hx : f x with
    | error e' =>
      constructor
      · intro h
        obtain rfl : e' = e := Except.error.inj h
        exact ⟨[], x, xs, .inl ⟨rfl, rfl⟩, nofun, hx⟩
      · rintro ⟨before, y, after, ⟨rfl, first⟩ | ⟨others, rfl, -⟩, sound, hy⟩
        · obtain ⟨rfl, -⟩ := List.cons.inj first
          obtain rfl : e' = e := Except.error.inj (hx.symm.trans hy)
          rfl
        · exact absurd hx (sound x List.mem_cons_self e')
    | ok z =>
      have rest : (xs.mapM f >>= fun zs => pure (z :: zs)) = .error e ↔ xs.mapM f = .error e := by
        cases xs.mapM f <;> simp [bind, Except.bind, pure, Except.pure]
      refine rest.trans (ih.trans ?_)
      constructor
      · rintro ⟨before, y, after, rfl, sound, hy⟩
        refine ⟨x :: before, y, after, .inr ⟨before, rfl, rfl⟩, ?_, hy⟩
        exact List.forall_mem_cons.2 ⟨fun e' => by simp [hx], sound⟩
      · rintro ⟨before, y, after, ⟨rfl, first⟩ | ⟨others, rfl, split⟩, sound, hy⟩
        · obtain ⟨rfl, -⟩ := List.cons.inj first
          cases hx.symm.trans hy
        · exact ⟨others, y, after, split, fun u hu => sound u (List.mem_cons_of_mem x hu), hy⟩

/-- A check of every element passes exactly when no element fails it. -/
theorem forM_eq_ok_iff {ε α : Type} {f : α → Except ε Unit} {xs : List α} :
    xs.forM f = .ok () ↔ ∀ x ∈ xs, f x = .ok () := by
  induction xs with
  | nil => simp [List.forM, pure, Except.pure]
  | cons x xs ih =>
    rw [List.forM]
    cases hx : f x with
    | error e => simp [bind, Except.bind, hx]
    | ok u => simp [bind, Except.bind, hx, ← ih]

theorem exists_left_of_forall₂ {α β : Type} {R : α → β → Prop} {xs : List α} {ys : List β}
    (h : List.Forall₂ R xs ys) {y : β} (hy : y ∈ ys) : ∃ x ∈ xs, R x y := by
  induction h with
  | nil => simp at hy
  | @cons x z xs ys hxz _ ih =>
    rcases List.mem_cons.1 hy with rfl | hy
    · exact ⟨x, by simp, hxz⟩
    · obtain ⟨a, ha, h⟩ := ih hy
      exact ⟨a, by simp [ha], h⟩

theorem exists_right_of_forall₂ {α β : Type} {R : α → β → Prop} {xs : List α} {ys : List β}
    (h : List.Forall₂ R xs ys) {x : α} (hx : x ∈ xs) : ∃ y ∈ ys, R x y :=
  exists_left_of_forall₂ h.flip hx

theorem exists_getElem?_left_of_forall₂ {α β : Type} {R : α → β → Prop} {xs : List α} {ys : List β}
    (h : List.Forall₂ R xs ys) {n : Nat} {y : β} (hy : ys[n]? = some y) : ∃ x, xs[n]? = some x ∧ R x y := by
  obtain ⟨length, each⟩ := List.forall₂_iff_get.1 h
  obtain ⟨hn, rfl⟩ := List.getElem?_eq_some_iff.1 hy
  have inside : n < xs.length := by omega
  exact ⟨xs[n], List.getElem?_eq_getElem inside, each n inside hn⟩

/-- Lists whose elements agree pairwise under two functions have the same images. -/
theorem map_eq_map_of_forall₂ {α β γ : Type} {f : α → γ} {g : β → γ} {xs : List α} {ys : List β}
    (h : List.Forall₂ (fun x y => g y = f x) xs ys) : ys.map g = xs.map f := by
  induction h with
  | nil => rfl
  | cons head _ ih => rw [List.map_cons, List.map_cons, head, ih]

/-- Related lists are related by a relation that need only follow for their own elements. -/
theorem forall₂_imp_of_mem {α β : Type} {R S : α → β → Prop} {xs : List α} {ys : List β}
    (h : List.Forall₂ R xs ys) (himp : ∀ x ∈ xs, ∀ y, R x y → S x y) : List.Forall₂ S xs ys :=
  ((List.forall₂_and_left xs ys).2 ⟨fun _ hx => hx, h⟩).imp fun x y hxy => himp x hxy.1 y hxy.2

end QueryPlan
