import QueryPlan.Proofs.ExpressionTokens
import QueryPlan.Proofs.Runtime

/-!
# What the text of an expression says

In the text of an expression a null test belongs to the term before it, since no parentheses stand around an
operand. So the test of a conjunction of several terms is read as a conjunction whose last term is tested. An
expression is read back from its tokens (`Scalar.Reader.run_tokens`), and with the text it has the value of what
is read exactly if all expressions with that text whose tests have single terms have its value
(`Scalar.text_determines_value`). The values here are those of any conversions: the text names the type that a
value is converted to and not the one that it had.
-/
namespace QueryPlan

/-! ## Values -/

/-- What the values of expressions depend on besides the row. The conversion to a type may be any function of the
value, null included. -/
structure Evaluation (α : Type) where
  truth : Bool → α
  truth_ne : truth true ≠ truth false
  convert : SqlType → Option α → Option α

namespace Evaluation

variable {α : Type} [DecidableEq α] (ev : Evaluation α)

/-- False if one of the terms is false, true if all are true, and unknown otherwise. -/
def jointly (terms : List (Option α)) : Option α :=
  if terms.any (· = some (ev.truth false)) then some (ev.truth false)
  else if terms.all (· = some (ev.truth true)) then some (ev.truth true)
  else none

/-- The value of a conjunction. A single term stands for itself, also where it is no truth value. -/
def conjoin : List (Option α) → Option α
  | [t] => t
  | terms => ev.jointly terms

mutual
/-- The value of an expression on a row. -/
def eval (row : Row α) : Scalar → Option α
  | .field pos _ => row.value pos
  | .cast e type => ev.convert type (eval row e)
  | .isNotNull e => some (ev.truth (eval row e).isSome)
  | .conj es => ev.conjoin (evalAll row es)
def evalAll (row : Row α) : List Scalar → List (Option α)
  | [] => []
  | e :: es => eval row e :: evalAll row es
end

@[simp] theorem evalAll_eq_map (row : Row α) (es : List Scalar) : ev.evalAll row es = es.map (ev.eval row) := by
  induction es with
  | nil => rfl
  | cons e es ih => rw [evalAll, ih, List.map_cons]

theorem jointly_of_mem {terms : List (Option α)} (h : some (ev.truth false) ∈ terms) :
    ev.jointly terms = some (ev.truth false) := by
  simp [jointly, h]

theorem jointly_of_notMem {terms : List (Option α)} (h : some (ev.truth false) ∉ terms) :
    ev.jointly terms = if terms.all (· = some (ev.truth true)) then some (ev.truth true) else none := by
  simp [jointly, h]

theorem jointly_eq_false_iff {terms : List (Option α)} :
    ev.jointly terms = some (ev.truth false) ↔ some (ev.truth false) ∈ terms := by
  refine ⟨fun value => ?_, ev.jointly_of_mem⟩
  by_contra absent
  rw [ev.jointly_of_notMem absent] at value
  split_ifs at value
  exact ev.truth_ne (Option.some.inj value)

theorem jointly_eq_true_iff {terms : List (Option α)} :
    ev.jointly terms = some (ev.truth true) ↔ ∀ t ∈ terms, t = some (ev.truth true) := by
  by_cases h : some (ev.truth false) ∈ terms
  · rw [ev.jointly_of_mem h]
    refine iff_of_false (by simp [ev.truth_ne.symm]) fun all => ?_
    exact ev.truth_ne (Option.some.inj (all _ h)).symm
  · simp [ev.jointly_of_notMem h]

/-- A conjunction depends on whether some term is false and whether all are true. -/
theorem jointly_congr {xs ys : List (Option α)}
    (some_false : some (ev.truth false) ∈ xs ↔ some (ev.truth false) ∈ ys)
    (all_true : (∀ t ∈ xs, t = some (ev.truth true)) ↔ ∀ t ∈ ys, t = some (ev.truth true)) :
    ev.jointly xs = ev.jointly ys := by
  by_cases h : some (ev.truth false) ∈ xs
  · rw [ev.jointly_of_mem h, ev.jointly_of_mem (some_false.1 h)]
  · rw [ev.jointly_of_notMem h, ev.jointly_of_notMem fun h' => h (some_false.2 h')]
    simp only [List.all_eq_true, decide_eq_true_eq, all_true]

theorem conjoin_eq_jointly {terms : List (Option α)} (h : terms.length ≠ 1) :
    ev.conjoin terms = ev.jointly terms := by
  match terms with
  | [] | _ :: _ :: _ => rfl
  | [t] => exact absurd rfl h

/-- On truth values and nulls the conjunctions are those of a runtime. -/
theorem conjoin_eq_runtime_conjoin (rt : Runtime α) (same : rt.truth = ev.truth) {terms : List (Option α)}
    (values : ∀ t ∈ terms, ∀ v ∈ t, ∃ b, v = ev.truth b) : ev.conjoin terms = rt.conjoin terms := by
  have joint : ev.jointly terms = rt.conjoin terms := by simp [jointly, Runtime.conjoin, same]
  rw [← joint]
  by_cases single : terms.length = 1
  · obtain ⟨t, rfl⟩ := List.length_eq_one_iff.1 single
    cases t with
    | none => simp [conjoin, jointly]
    | some v =>
      obtain ⟨b, rfl⟩ := values (some v) List.mem_cons_self v rfl
      cases b <;> simp [conjoin, jointly, ev.truth_ne]
  · exact ev.conjoin_eq_jointly single

theorem conjoin_eq_false_iff {terms : List (Option α)} :
    ev.conjoin terms = some (ev.truth false) ↔ some (ev.truth false) ∈ terms := by
  by_cases single : terms.length = 1
  · obtain ⟨t, rfl⟩ := List.length_eq_one_iff.1 single
    simp [conjoin, eq_comm]
  · rw [ev.conjoin_eq_jointly single, jointly_eq_false_iff]

theorem conjoin_eq_true_iff {terms : List (Option α)} :
    ev.conjoin terms = some (ev.truth true) ↔ ∀ t ∈ terms, t = some (ev.truth true) := by
  by_cases single : terms.length = 1
  · obtain ⟨t, rfl⟩ := List.length_eq_one_iff.1 single
    simp [conjoin]
  · rw [ev.conjoin_eq_jointly single, jointly_eq_true_iff]

/-- Conjunctions may be regrouped. -/
theorem conjoin_flatten {xss : List (List (Option α))} (h : ∀ xs ∈ xss, xs ≠ []) :
    ev.conjoin xss.flatten = ev.conjoin (xss.map ev.conjoin) := by
  match xss with
  | [] => rfl
  | [xs] => simp [conjoin]
  | xs :: ys :: xss =>
    have several : (xs :: ys :: xss).flatten.length ≠ 1 := by
      have := List.length_pos_iff.2 (h xs (by simp))
      have := List.length_pos_iff.2 (h ys (by simp))
      simp only [List.flatten_cons, List.length_append]
      omega
    rw [ev.conjoin_eq_jointly several, ev.conjoin_eq_jointly (by simp)]
    apply jointly_congr
    · simp only [List.mem_flatten, List.mem_map, conjoin_eq_false_iff]
    · simp only [List.forall_mem_flatten, List.forall_mem_map, conjoin_eq_true_iff]

/-- Truth values as they are, under conversions that change nothing. -/
def ofBools : Evaluation Bool := ⟨id, by decide, fun _ v => v⟩

end Evaluation

namespace Scalar

/-! ## Tests of single terms -/

mutual
/-- Has the text of the expression a single term, if no conjunction of several terms is tested in it? -/
def oneTerm : Scalar → Bool
  | .conj es => oneTermAll es
  | _ => true
def oneTermAll : List Scalar → Bool
  | [] => true
  | [e] => e.oneTerm
  | _ :: _ :: _ => false
end

/-- No conjunction of several terms is tested for null, also not as the only term of a conjunction. -/
def TestsSingleTerms (e : Scalar) : Prop := ∀ x, isNotNull x ∈ e.subterms → x.oneTerm = true

@[simp] theorem testsSingleTerms_field (pos : Nat) (type : SqlType) : (field pos type).TestsSingleTerms := by
  simp [TestsSingleTerms, subterms]

@[simp] theorem testsSingleTerms_cast {e : Scalar} {type : SqlType} :
    (cast e type).TestsSingleTerms ↔ e.TestsSingleTerms := by
  simp [TestsSingleTerms, subterms]

@[simp] theorem testsSingleTerms_isNotNull {e : Scalar} :
    (isNotNull e).TestsSingleTerms ↔ e.oneTerm = true ∧ e.TestsSingleTerms := by
  simp [TestsSingleTerms, subterms]

@[simp] theorem testsSingleTerms_conj {es : List Scalar} :
    (conj es).TestsSingleTerms ↔ ∀ e ∈ es, e.TestsSingleTerms := by
  simp only [TestsSingleTerms, subterms, subtermsAll_eq_flatMap, List.mem_cons, reduceCtorEq, List.mem_flatMap,
    false_or]
  constructor
  · intro h e he x hx
    exact h x ⟨e, he, hx⟩
  · rintro h x ⟨e, he, hx⟩
    exact h e he x hx

/-! ## Readings -/

/-- The terms of a conjunction, of which there is at least one. -/
structure Clause where
  before : List Scalar
  last : Scalar

namespace Clause

def terms (c : Clause) : List Scalar := c.before ++ [c.last]

/-- The last term is tested for null. -/
def test (c : Clause) : Clause := { c with last := .isNotNull c.last }

/-- The clause with other terms before its own. -/
def behind (es : List Scalar) (c : Clause) : Clause := { c with before := es ++ c.before }

theorem terms_ne_nil (c : Clause) : c.terms ≠ [] := by simp [terms]

@[simp] theorem terms_behind (es : List Scalar) (c : Clause) : (c.behind es).terms = es ++ c.terms := by
  simp [behind, terms]

theorem behind_behind (es fs : List Scalar) (c : Clause) : (c.behind fs).behind es = c.behind (es ++ fs) := by
  simp [behind]

@[simp] theorem behind_nil (c : Clause) : c.behind [] = c := rfl

end Clause

mutual
/-- The terms that the text of an expression has. The text does not show the types of fields. -/
def clause (types : RowType) : Scalar → Clause
  | .field pos _ => ⟨[], .field pos ((types.type? pos).getD default)⟩
  | .cast e type => ⟨[], .cast (.conj (e.clause types).terms) type⟩
  | .isNotNull e => (e.clause types).test
  | .conj es => clauseAll types es
def clauseAll (types : RowType) : List Scalar → Clause
  | [] => ⟨[], .conj []⟩
  | [e] => e.clause types
  | e :: f :: es => (clauseAll types (f :: es)).behind (e.clause types).terms
end

/-- The conjunction that the text of an expression is read as. -/
def reading (types : RowType) (e : Scalar) : Scalar := .conj (e.clause types).terms

/-- What has been read of a text: the terms so far of the conjunctions around the casts that are open, and those of
the present conjunction. -/
structure Reader where
  outer : List (List Scalar)
  present : Clause

namespace Reader

/-- Nothing has been read of the present term. A term without any words is the empty conjunction. -/
def fresh (outer : List (List Scalar)) (before : List Scalar) : Reader := ⟨outer, ⟨before, .conj []⟩⟩

def read (types : RowType) (r : Reader) : Token → Reader
  | .field pos => { r with present.last := .field pos ((types.type? pos).getD default) }
  | .openCast => fresh (r.present.before :: r.outer) []
  | .closeCast type => ⟨r.outer.tail, ⟨r.outer.headD [], .cast (.conj r.present.terms) type⟩⟩
  | .and => fresh r.outer r.present.terms
  | .isNotNull => { r with present := r.present.test }

def run (types : RowType) (r : Reader) (ts : List Token) : Reader := ts.foldl (read types) r

variable {types : RowType}

theorem run_cons (r : Reader) (t : Token) (ts : List Token) :
    r.run types (t :: ts) = (r.read types t).run types ts := rfl

theorem run_append (r : Reader) (ts us : List Token) :
    r.run types (ts ++ us) = (r.run types ts).run types us := List.foldl_append

theorem run_tokensAll {es : List Scalar}
    (h : ∀ e ∈ es, ∀ outer before,
      (fresh outer before).run types e.tokens = ⟨outer, (e.clause types).behind before⟩)
    (outer : List (List Scalar)) (before : List Scalar) :
    (fresh outer before).run types (tokensAll es) = ⟨outer, (clauseAll types es).behind before⟩ := by
  induction es generalizing before with
  | nil => simp [tokensAll, clauseAll, run, fresh, Clause.behind]
  | cons e es ih =>
    rw [List.forall_mem_cons] at h
    cases es with
    | nil => exact h.1 outer before
    | cons f es =>
      rw [tokensAll, run_append, h.1, run_cons, read, Clause.terms_behind, ih h.2, clauseAll, Clause.behind_behind]

/-- Reading the tokens of an expression adds its terms to those before. -/
theorem run_tokens (e : Scalar) (outer : List (List Scalar)) (before : List Scalar) :
    (fresh outer before).run types e.tokens = ⟨outer, (e.clause types).behind before⟩ := by
  induction e using Scalar.induction generalizing outer before with
  | field pos type => simp [tokens, clause, run, read, fresh, Clause.behind]
  | cast e type ih =>
    have opened : (fresh outer before).read types .openCast = fresh (before :: outer) [] := rfl
    rw [tokens, run_cons, run_append, opened, ih, Clause.behind_nil]
    simp [clause, run, read, Clause.behind]
  | isNotNull e ih =>
    rw [tokens, run_append, ih]
    rfl
  | conj es ih => exact run_tokensAll ih outer before

end Reader

variable {types : RowType}

/-- Expressions with the same tokens are read alike. -/
theorem clause_eq_of_tokens_eq {e f : Scalar} (h : e.tokens = f.tokens) : e.clause types = f.clause types := by
  have read : (Reader.fresh [] []).run types e.tokens = _ := Reader.run_tokens e [] []
  rw [h, Reader.run_tokens] at read
  exact (Reader.mk.inj read).2.symm

theorem tokensAll_append {es fs : List Scalar} (hes : es ≠ []) (hfs : fs ≠ []) :
    tokensAll (es ++ fs) = tokensAll es ++ .and :: tokensAll fs := by
  induction es with
  | nil => exact absurd rfl hes
  | cons e es ih =>
    cases es with
    | nil =>
      obtain ⟨f, fs, rfl⟩ := List.exists_cons_of_ne_nil hfs
      rfl
    | cons e' es => simp [tokensAll, ← ih (by simp)]

theorem tokensAll_test (c : Clause) : tokensAll c.test.terms = tokensAll c.terms ++ [.isNotNull] := by
  obtain ⟨before, last⟩ := c
  cases before with
  | nil => rfl
  | cons e es =>
    have split (x : Scalar) := tokensAll_append (List.cons_ne_nil e es) (List.cons_ne_nil x [])
    rw [Clause.terms, Clause.terms, Clause.test, split, split]
    simp [tokensAll, tokens]

theorem tokensAll_terms_clauseAll {es : List Scalar} (h : ∀ e ∈ es, tokensAll (e.clause types).terms = e.tokens) :
    tokensAll (clauseAll types es).terms = tokensAll es := by
  induction es with
  | nil => rfl
  | cons e es ih =>
    rw [List.forall_mem_cons] at h
    cases es with
    | nil => exact h.1
    | cons f es =>
      rw [clauseAll, Clause.terms_behind, tokensAll_append (Clause.terms_ne_nil _) (Clause.terms_ne_nil _), h.1,
        ih h.2, tokensAll]

/-- What is read has the tokens of the expression. -/
theorem tokens_reading (e : Scalar) : (e.reading types).tokens = e.tokens := by
  rw [reading, tokens]
  induction e using Scalar.induction with
  | field pos type => rfl
  | cast e type ih =>
    change Token.openCast :: (tokensAll (e.clause types).terms ++ [.closeCast type]) = _
    rw [ih, tokens]
  | isNotNull e ih => rw [clause, tokensAll_test, ih, tokens]
  | conj es ih => exact tokensAll_terms_clauseAll ih

theorem mem_terms_test {c : Clause} {t : Scalar} (h : t ∈ c.test.terms) : t ∈ c.terms ∨ t = .isNotNull c.last := by
  rw [Clause.terms, Clause.test, List.mem_append, List.mem_singleton] at h
  exact h.imp_left (List.mem_append_left _)

theorem terms_clauseAll {es : List Scalar} (h : es ≠ []) :
    (clauseAll types es).terms = es.flatMap fun e => (e.clause types).terms := by
  induction es with
  | nil => exact absurd rfl h
  | cons e es ih =>
    cases es with
    | nil => simp [clauseAll]
    | cons f es => rw [List.flatMap_cons, ← ih (by simp), clauseAll, Clause.terms_behind]

/-- Each term that is read is a single one and tests single ones only. -/
theorem single_of_mem_terms {e t : Scalar} (h : t ∈ (e.clause types).terms) :
    t.oneTerm = true ∧ t.TestsSingleTerms := by
  induction e using Scalar.induction generalizing t with
  | field pos type =>
    obtain rfl : t = .field pos ((types.type? pos).getD default) := List.mem_singleton.1 h
    exact ⟨rfl, testsSingleTerms_field _ _⟩
  | cast e type ih =>
    obtain rfl : t = .cast (.conj (e.clause types).terms) type := List.mem_singleton.1 h
    exact ⟨rfl, testsSingleTerms_cast.2 (testsSingleTerms_conj.2 fun t ht => (ih ht).2)⟩
  | isNotNull e ih =>
    rcases mem_terms_test h with h | rfl
    · exact ih h
    · exact ⟨rfl, testsSingleTerms_isNotNull.2 (ih (List.mem_append_right _ List.mem_cons_self))⟩
  | conj es ih =>
    by_cases empty : es = []
    · subst empty
      obtain rfl : t = .conj [] := List.mem_singleton.1 h
      exact ⟨rfl, testsSingleTerms_conj.2 (List.forall_mem_nil _)⟩
    · rw [clause, terms_clauseAll empty, List.mem_flatMap] at h
      obtain ⟨e, he, ht⟩ := h
      exact ih e he ht

theorem testsSingleTerms_reading (e : Scalar) : (e.reading types).TestsSingleTerms :=
  testsSingleTerms_conj.2 fun _ ht => (single_of_mem_terms ht).2

/-- A single term has nothing before it. -/
theorem before_eq_nil {e : Scalar} (single : e.oneTerm = true) (tests : e.TestsSingleTerms) :
    (e.clause types).before = [] := by
  induction e using Scalar.induction with
  | field pos type => rfl
  | cast e type ih => rfl
  | isNotNull e ih =>
    rw [testsSingleTerms_isNotNull] at tests
    exact ih tests.1 tests.2
  | conj es ih =>
    match es with
    | [] => rfl
    | [e] => exact ih e (by simp) single (testsSingleTerms_conj.1 tests e (by simp))
    | _ :: _ :: _ => cases single

variable {α : Type} [DecidableEq α] (ev : Evaluation α) (row : Row α)

/-- An expression that tests single terms only has the value of what its text is read as. -/
theorem eval_reading {e : Scalar} (tests : e.TestsSingleTerms) : ev.eval row (e.reading types) = ev.eval row e := by
  induction e using Scalar.induction with
  | field pos type => rfl
  | cast e type ih => exact congrArg (ev.convert type) (ih (testsSingleTerms_cast.1 tests))
  | isNotNull e ih =>
    obtain ⟨single, tests⟩ := testsSingleTerms_isNotNull.1 tests
    have operand := ih tests
    have alone : (e.clause types).before = [] := before_eq_nil single tests
    simp only [reading, Clause.terms, clause, Clause.test, alone, List.nil_append] at operand ⊢
    exact congrArg (fun v => some (ev.truth v.isSome)) operand
  | conj es ih =>
    by_cases empty : es = []
    · subst empty
      rfl
    · have operands :
          es.map (fun e => ev.conjoin ((e.clause types).terms.map (ev.eval row))) = es.map (ev.eval row) := by
        refine List.map_congr_left fun e he => ?_
        have operand := ih e he (testsSingleTerms_conj.1 tests e he)
        rwa [reading, Evaluation.eval, Evaluation.evalAll_eq_map] at operand
      rw [reading, clause, terms_clauseAll empty, Evaluation.eval, Evaluation.eval, Evaluation.evalAll_eq_map,
        Evaluation.evalAll_eq_map, List.map_flatMap, List.flatMap_def, Evaluation.conjoin_flatten, List.map_map,
        ← operands]
      · rfl
      · simp [Clause.terms_ne_nil]

/-- Over a row with legible names the text of an expression determines its value, if no conjunction of several terms
is tested for null. An expression with other tests has the value of all such expressions with its text exactly if it
has the value of what its text is read as, which is one of them. -/
theorem text_determines_value (legible : types.Legible) {e : Scalar} (he : e.checkFields types = .ok ()) :
    (e.TestsSingleTerms → ∀ f : Scalar, f.checkFields types = .ok () → f.TestsSingleTerms →
      f.render types = e.render types → ev.eval row f = ev.eval row e) ∧
    ((∀ f : Scalar, f.checkFields types = .ok () → f.TestsSingleTerms → f.render types = e.render types →
      ev.eval row f = ev.eval row e) ↔ ev.eval row (e.reading types) = ev.eval row e) := by
  have read (f : Scalar) (hf : f.checkFields types = .ok ()) (tests : f.TestsSingleTerms)
      (same : f.render types = e.render types) : ev.eval row f = ev.eval row (e.reading types) := by
    have tokens := tokens_eq_of_render_eq legible hf he same
    rw [← eval_reading ev row tests, reading, reading, clause_eq_of_tokens_eq tokens]
  refine ⟨fun tests f hf tests' same => ?_, fun h => ?_, fun h f hf tests same => ?_⟩
  · rw [read f hf tests' same, eval_reading ev row tests]
  · have tokens : (e.reading types).tokens = e.tokens := tokens_reading e
    refine h _ ?_ (testsSingleTerms_reading e) (render_eq_of_tokens_eq tokens)
    rw [← fits_tokens_iff, tokens, fits_tokens_iff]
    exact he
  · rw [read f hf tests same, h]

/-- Two columns of truth values. -/
def flags : RowType := [⟨"a", .boolean⟩, ⟨"b", .boolean⟩]

theorem legible_flags : flags.Legible := ⟨by decide, by decide, by simp [flags, RowType.names, isNameChar]⟩

/-- A conjunction whose first two terms are a conjunction of their own. -/
def groupedFirst : Scalar :=
  .conj [.conj [.field 0 .boolean, .isNotNull (.field 1 .boolean)], .cast (.conj [.field 0 .boolean]) .boolean]

/-- The same terms with the last two of them in a conjunction of their own. -/
def groupedLast : Scalar :=
  .conj [.field 0 .boolean, .conj [.isNotNull (.field 1 .boolean), .cast (.field 0 .boolean) .boolean]]

theorem text_determines_value_grouped :
    flags.Legible ∧ groupedFirst.checkFields flags = .ok () ∧ groupedLast.checkFields flags = .ok () ∧
      groupedFirst.TestsSingleTerms ∧ groupedLast.TestsSingleTerms ∧
      groupedFirst.render flags = "a AND b IS NOT NULL AND CAST(a AS BOOLEAN)" ∧
      groupedLast.render flags = groupedFirst.render flags ∧
      Evaluation.ofBools.eval [some true, none] groupedLast =
        Evaluation.ofBools.eval [some true, none] groupedFirst := by
  have checked : groupedFirst.checkFields flags = .ok () := rfl
  have tests : groupedFirst.TestsSingleTerms := by simp [groupedFirst, oneTerm]
  have tests' : groupedLast.TestsSingleTerms := by simp [groupedLast, oneTerm]
  have text : groupedFirst.render flags = "a AND b IS NOT NULL AND CAST(a AS BOOLEAN)" := by decide
  have text' : groupedLast.render flags = groupedFirst.render flags := by decide
  obtain ⟨determined, -⟩ := text_determines_value Evaluation.ofBools [some true, none] legible_flags checked
  exact ⟨legible_flags, checked, rfl, tests, tests', text, text', determined tests groupedLast rfl tests' text'⟩

/-- A null test of the conjunction of the columns. -/
def bothTested : Scalar := .isNotNull (.conj [.field 0 .boolean, .field 1 .boolean])

/-- The conjunction of the first column and a null test of the second. -/
def lastTested : Scalar := .conj [.field 0 .boolean, .isNotNull (.field 1 .boolean)]

/-- Both are written alike, and where the first column is false and the second true only one of them is true. -/
theorem same_text_of_tested_conj :
    flags.Legible ∧ (∀ name ∈ flags.names, name ∉ ["CAST", "AS", "IS", "NOT", "NULL", "AND"]) ∧
      bothTested.checkFields flags = .ok () ∧ lastTested.checkFields flags = .ok () ∧
      bothTested.render flags = "a AND b IS NOT NULL" ∧ lastTested.render flags = "a AND b IS NOT NULL" ∧
      Evaluation.ofBools.eval [some false, some true] bothTested = some true ∧
      Evaluation.ofBools.eval [some false, some true] lastTested = some false :=
  ⟨legible_flags, by decide, rfl, rfl, by decide, by decide, by decide, by decide⟩

end Scalar

end QueryPlan
