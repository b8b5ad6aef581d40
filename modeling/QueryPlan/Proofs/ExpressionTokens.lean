import Mathlib.Data.List.Chain
import QueryPlan.Listing.Line
import QueryPlan.Proofs.Typing

/-!
# The words of an expression

The text of an expression is a sequence of tokens with nothing between them: field names and the fixed words of
casts, conjunctions and null tests. Over a row whose fields have distinct names without blanks and parentheses the
text determines the tokens (`Scalar.tokens_eq_of_render_eq`). A name ends where a word with a blank in front begins,
or where the text ends, since no name and no cast follows a name directly.
-/
namespace QueryPlan

/-- What goes on as long as a condition holds ends at the same place in equal lists. -/
theorem append_inj_of_run {α : Type} {p : α → Bool} {xs ys r s : List α} (hxs : ∀ x ∈ xs, p x = true)
    (hys : ∀ y ∈ ys, p y = true) (hr : ∀ x ∈ r.head?, p x = false) (hs : ∀ y ∈ s.head?, p y = false)
    (h : xs ++ r = ys ++ s) : xs = ys ∧ r = s := by
  have stops {t : List α} (ht : ∀ x ∈ t.head?, p x = false) : t.takeWhile p = [] := by
    cases t with
    | nil => rfl
    | cons x t => simp [ht x rfl]
  have runs := congrArg (List.takeWhile p) h
  rw [List.takeWhile_append_of_pos hxs, List.takeWhile_append_of_pos hys, stops hr, stops hs, List.append_nil,
    List.append_nil] at runs
  subst runs
  exact ⟨rfl, List.append_cancel_left h⟩

namespace SqlType

/-- A number ends where a character follows that is no digit. -/
theorem toDigits_append_cons_inj {m n : Nat} {c : Char} (hc : c.isDigit = false) {r s : List Char}
    (h : Nat.toDigits 10 m ++ c :: r = Nat.toDigits 10 n ++ c :: s) : m = n ∧ r = s := by
  have digits {n : Nat} : ∀ d ∈ Nat.toDigits 10 n, d.isDigit = true :=
    fun d hd => Nat.isDigit_of_mem_toDigits (by decide) (by decide) hd
  obtain ⟨same, rest⟩ := append_inj_of_run digits digits (by simpa using hc) (by simpa using hc) h
  have read := congrArg (Nat.ofDigitChars 10 · 0) same
  simp only [Nat.ofDigitChars_ten_toDigits] at read
  exact ⟨read, (List.cons.inj rest).2⟩

theorem toList_render_decimal (precision scale : UInt8) : (decimal precision scale).render.toList =
    "DECIMAL(".toList ++ (Nat.toDigits 10 precision.toNat ++ ',' :: ' ' :: (Nat.toDigits 10 scale.toNat ++ [')'])) := by
  simp [render, toString]

theorem toList_render_char (length : UInt32) :
    (char length).render.toList = "CHAR(".toList ++ (Nat.toDigits 10 length.toNat ++ [')']) := by
  simp [render, toString]

theorem toList_render_varchar (length : UInt32) :
    (varchar length).render.toList = "VARCHAR(".toList ++ (Nat.toDigits 10 length.toNat ++ [')']) := by
  simp [render, toString]

/-- The text of a type ends where the parenthesis after it closes. -/
theorem render_append_inj {a b : SqlType} {r s : List Char}
    (h : a.render.toList ++ ')' :: r = b.render.toList ++ ')' :: s) : a = b ∧ r = s := by
  cases a with
  | decimal p q =>
    cases b with
    | decimal p' q' =>
      simp only [toList_render_decimal, List.append_assoc, List.cons_append, List.nil_append] at h
      obtain ⟨precision, h⟩ := toDigits_append_cons_inj (by decide) (List.append_cancel_left h)
      obtain ⟨scale, h⟩ := toDigits_append_cons_inj (by decide) (List.cons.inj h).2
      rw [UInt8.toNat_inj.1 precision, UInt8.toNat_inj.1 scale]
      exact ⟨rfl, (List.cons.inj h).2⟩
    | _ => simp [render, toString] at h
  | char m =>
    cases b with
    | char n =>
      simp only [toList_render_char, List.append_assoc, List.cons_append, List.nil_append] at h
      obtain ⟨length, h⟩ := toDigits_append_cons_inj (by decide) (List.append_cancel_left h)
      rw [UInt32.toNat_inj.1 length]
      exact ⟨rfl, (List.cons.inj h).2⟩
    | _ => simp [render, toString] at h
  | varchar m =>
    cases b with
    | varchar n =>
      simp only [toList_render_varchar, List.append_assoc, List.cons_append, List.nil_append] at h
      obtain ⟨length, h⟩ := toDigits_append_cons_inj (by decide) (List.append_cancel_left h)
      rw [UInt32.toNat_inj.1 length]
      exact ⟨rfl, (List.cons.inj h).2⟩
    | _ => simp [render, toString] at h
  | _ => cases b <;> simp_all [render, toString]

end SqlType

/-! ## Names -/

/-- Can the character stand in a name that is written without quotes? -/
def isNameChar (c : Char) : Bool := c ≠ ' ' && c ≠ '(' && c ≠ ')'

/-- The fields have distinct names, each of at least one character and without blanks and parentheses. -/
structure RowType.Legible (row : RowType) : Prop where
  nodup : row.names.Nodup
  ne_empty : ∀ name ∈ row.names, name ≠ ""
  plain : ∀ name ∈ row.names, ∀ c ∈ name.toList, isNameChar c = true

namespace RowType.Legible

variable {row : RowType} (legible : row.Legible) {pos : Nat} (bound : pos < row.length)
include legible bound

theorem getElem?_names : row.names[pos]? = some (row.label pos) := by
  have named : row[pos].name ≠ "" := legible.ne_empty _ (List.mem_map_of_mem (List.getElem_mem bound))
  simp [label, Field.label, names, List.getElem?_eq_getElem bound, String.isEmpty_iff, named]

theorem label_mem : row.label pos ∈ row.names := List.mem_of_getElem? (legible.getElem?_names bound)

theorem label_inj {other : Nat} (bound' : other < row.length) (h : row.label pos = row.label other) :
    pos = other := by
  have width : pos < row.names.length := by simpa [names] using bound
  rw [← List.getElem?_inj width legible.nodup, legible.getElem?_names bound, legible.getElem?_names bound', h]

/-- A name ends where a blank follows. -/
theorem label_append_inj {ys r s : List Char} (hys : ∀ c ∈ ys, isNameChar c = true)
    (hr : ∀ c ∈ r.head?, c = ' ') (hs : ∀ c ∈ s.head?, isNameChar c = false)
    (h : (row.label pos).toList ++ r = ys ++ s) : (row.label pos).toList = ys ∧ r = s :=
  append_inj_of_run (legible.plain _ (legible.label_mem bound)) hys (fun c hc => hr c hc ▸ rfl) hs h

end RowType.Legible

/-! ## Tokens -/

inductive Token
  | field (pos : Nat)
  | openCast
  | closeCast (type : SqlType)
  | and
  | isNotNull

namespace Token

def text (row : RowType) : Token → String
  | field pos => row.label pos
  | openCast => "CAST("
  | closeCast type => " AS " ++ type.render ++ ")"
  | and => " AND "
  | isNotNull => " IS NOT NULL"

/-- A field of the token is in the row. -/
def Fits (row : RowType) : Token → Prop
  | field pos => pos < row.length
  | _ => True

/-- Does a term begin with the token? The others begin with a blank. -/
def isWord : Token → Bool
  | field _ | openCast => true
  | _ => false

/-- A name is not followed by another word directly. -/
def Apart : Token → Token → Prop
  | field _, u => u.isWord = false
  | _, _ => True

theorem apart_of_isWord (t : Token) {u : Token} (h : u.isWord = false) : t.Apart u := by
  cases t <;> simp [Apart, h]

theorem isChain_append_cons {ts us : List Token} {u : Token} (apart : ts.IsChain Apart) (h : u.isWord = false)
    (apart' : (u :: us).IsChain Apart) : (ts ++ u :: us).IsChain Apart := by
  refine List.isChain_append.2 ⟨apart, apart', fun t _ v hv => ?_⟩
  obtain rfl := Option.some.inj hv
  exact apart_of_isWord t h

variable {row : RowType} (legible : row.Legible)

theorem exists_text_eq_of_isWord (row : RowType) {u : Token} (h : u.isWord = false) :
    ∃ cs, (u.text row).toList = ' ' :: cs := by
  cases u <;> simp_all [isWord, text]

/-- The text of a list of tokens. -/
def spell (row : RowType) (ts : List Token) : List Char := ts.flatMap fun t => (t.text row).toList

@[simp] theorem spell_nil : spell row [] = [] := rfl

@[simp] theorem spell_cons (t : Token) (ts : List Token) :
    spell row (t :: ts) = (t.text row).toList ++ spell row ts := List.flatMap_cons

@[simp] theorem spell_append (ts us : List Token) : spell row (ts ++ us) = spell row ts ++ spell row us :=
  List.flatMap_append

/-- Does a text that follows the token leave it as it is? A name goes on up to a blank. -/
def Ends (r : List Char) : Token → Prop
  | field _ => ∀ c ∈ r.head?, c = ' '
  | _ => True

theorem ends_spell {t : Token} {ts : List Token} (apart : (t :: ts).IsChain Apart) : t.Ends (spell row ts) := by
  cases t with
  | field pos =>
    cases ts with
    | nil => simp [Ends]
    | cons u us =>
      obtain ⟨cs, text⟩ := exists_text_eq_of_isWord row (List.isChain_cons_cons.1 apart).1
      simp [Ends, text]
  | _ => trivial

include legible

theorem field_text_append_ne {pos : Nat} (bound : pos < row.length) {u : Token} (h : ∀ q, u ≠ field q)
    {r s : List Char} (ends : (field pos).Ends r) : (row.label pos).toList ++ r ≠ (u.text row).toList ++ s := by
  intro same
  cases hu : u.isWord with
  | false =>
    obtain ⟨cs, text⟩ := exists_text_eq_of_isWord row hu
    have split : (row.label pos).toList ++ r = [] ++ ' ' :: (cs ++ s) := by
      rw [same, text, List.cons_append, List.nil_append]
    obtain ⟨empty, -⟩ := legible.label_append_inj bound (List.forall_mem_nil _) ends (by simp [isNameChar]) split
    exact legible.ne_empty _ (legible.label_mem bound) (String.toList_eq_nil_iff.1 empty)
  | true =>
    cases u with
    | openCast =>
      have split : (row.label pos).toList ++ r = "CAST".toList ++ '(' :: s := by simpa [text] using same
      obtain ⟨-, rest⟩ := legible.label_append_inj bound (by simp [isNameChar]) ends (by simp [isNameChar]) split
      simp [rest, Ends] at ends
    | field q => exact h q rfl
    | _ => cases hu

/-- The first token of a text and the rest are determined by the text. -/
theorem text_append_inj {t u : Token} (ht : t.Fits row) (hu : u.Fits row) {r s : List Char} (tr : t.Ends r)
    (us : u.Ends s) (h : (t.text row).toList ++ r = (u.text row).toList ++ s) : t = u ∧ r = s := by
  cases t with
  | field p =>
    cases u with
    | field q =>
      obtain ⟨names, rest⟩ := legible.label_append_inj ht (legible.plain _ (legible.label_mem hu)) tr
        (fun c hc => us c hc ▸ rfl) h
      exact ⟨congrArg field (legible.label_inj ht hu (String.toList_inj.1 names)), rest⟩
    | _ => exact absurd h (field_text_append_ne legible ht (by simp) tr)
  | openCast =>
    cases u with
    | field q => exact absurd h.symm (field_text_append_ne legible hu (by simp) us)
    | openCast => exact ⟨rfl, List.append_cancel_left h⟩
    | _ => simp [text] at h
  | closeCast a =>
    cases u with
    | field q => exact absurd h.symm (field_text_append_ne legible hu (by simp) us)
    | closeCast b =>
      obtain ⟨types, rest⟩ := SqlType.render_append_inj (by simpa [text] using h)
      exact ⟨congrArg closeCast types, rest⟩
    | _ => simp [text] at h
  | and =>
    cases u with
    | field q => exact absurd h.symm (field_text_append_ne legible hu (by simp) us)
    | and => exact ⟨rfl, List.append_cancel_left h⟩
    | _ => simp [text] at h
  | isNotNull =>
    cases u with
    | field q => exact absurd h.symm (field_text_append_ne legible hu (by simp) us)
    | isNotNull => exact ⟨rfl, List.append_cancel_left h⟩
    | _ => simp [text] at h

theorem text_ne_empty {t : Token} (ht : t.Fits row) : (t.text row).toList ≠ [] := by
  cases t with
  | field p => exact fun empty => legible.ne_empty _ (legible.label_mem ht) (String.toList_eq_nil_iff.1 empty)
  | _ => simp [text]

/-- Tokens in which no name is followed by a word are determined by their text. -/
theorem eq_of_spell_eq {ts us : List Token} (hts : ∀ t ∈ ts, t.Fits row) (hus : ∀ u ∈ us, u.Fits row)
    (apart : ts.IsChain Apart) (apart' : us.IsChain Apart) (h : spell row ts = spell row us) : ts = us := by
  induction ts generalizing us with
  | nil =>
    cases us with
    | nil => rfl
    | cons u us => exact absurd (List.append_eq_nil_iff.1 h.symm).1 (text_ne_empty legible (hus u List.mem_cons_self))
  | cons t ts ih =>
    rw [List.forall_mem_cons] at hts
    cases us with
    | nil => exact absurd (List.append_eq_nil_iff.1 h).1 (text_ne_empty legible hts.1)
    | cons u us =>
      rw [List.forall_mem_cons] at hus
      obtain ⟨rfl, rest⟩ := text_append_inj legible hts.1 hus.1 (ends_spell apart) (ends_spell apart') h
      rw [ih hts.2 hus.2 apart.of_cons apart'.of_cons rest]

end Token

namespace Scalar

mutual
/-- The tokens of the text of an expression. -/
def tokens : Scalar → List Token
  | .field pos _ => [.field pos]
  | .cast e type => .openCast :: (e.tokens ++ [.closeCast type])
  | .isNotNull e => e.tokens ++ [.isNotNull]
  | .conj es => tokensAll es
def tokensAll : List Scalar → List Token
  | [] => []
  | [e] => e.tokens
  | e :: f :: es => e.tokens ++ .and :: tokensAll (f :: es)
end

/-- A property holds of every expression if each one inherits it from its operands. -/
@[elab_as_elim]
theorem induction {motive : Scalar → Prop} (field : ∀ pos type, motive (.field pos type))
    (cast : ∀ e type, motive e → motive (.cast e type)) (isNotNull : ∀ e, motive e → motive (.isNotNull e))
    (conj : ∀ es, (∀ e ∈ es, motive e) → motive (.conj es)) (e : Scalar) : motive e :=
  @Scalar.rec motive (fun es => ∀ e ∈ es, motive e) field cast isNotNull conj (by simp)
    (fun _ _ head tail => List.forall_mem_cons.2 ⟨head, tail⟩) e

open Token

variable {row : RowType}

theorem spell_tokensAll {es : List Scalar} (h : ∀ e ∈ es, spell row e.tokens = (e.render row).toList) :
    spell row (tokensAll es) = (" AND ".intercalate (es.map (render row))).toList := by
  induction es with
  | nil => rfl
  | cons e es ih =>
    rw [List.forall_mem_cons] at h
    cases es with
    | nil => simpa [tokensAll] using h.1
    | cons f es =>
      have others := ih h.2
      simp only [List.map_cons] at others
      simp [tokensAll, h.1, others, Token.text, String.intercalate_cons_cons]

/-- An expression is written as its tokens are. -/
theorem spell_tokens (e : Scalar) : spell row e.tokens = (e.render row).toList := by
  induction e using Scalar.induction with
  | field pos type => simp [tokens, render, Token.text]
  | cast e type ih => simp [tokens, render, Token.text, ih]
  | isNotNull e ih => simp [tokens, render, Token.text, ih]
  | conj es ih => rw [tokens, spell_tokensAll ih, render, renderAll_eq_map]

@[simp] theorem positions_field (pos : Nat) (type : SqlType) : (field pos type).positions = [pos] := rfl

@[simp] theorem positions_cast (e : Scalar) (type : SqlType) : (cast e type).positions = e.positions := rfl

@[simp] theorem positions_isNotNull (e : Scalar) : (isNotNull e).positions = e.positions := rfl

@[simp] theorem positions_conj (es : List Scalar) : (conj es).positions = es.flatMap positions := by
  simp [positions, subterms, subtermsAll_eq_flatMap, List.filterMap_flatMap]
  rfl

theorem fits_tokensAll_iff {es : List Scalar} :
    (∀ t ∈ tokensAll es, t.Fits row) ↔ ∀ e ∈ es, ∀ t ∈ e.tokens, t.Fits row := by
  induction es with
  | nil => simp [tokensAll]
  | cons e es ih =>
    cases es with
    | nil => simp [tokensAll]
    | cons f es =>
      rw [tokensAll, List.forall_mem_append, List.forall_mem_cons, ih, List.forall_mem_cons (a := e)]
      simp [Token.Fits]

/-- The tokens refer to the fields that the expression refers to. -/
theorem fits_tokens_iff {e : Scalar} : (∀ t ∈ e.tokens, t.Fits row) ↔ e.checkFields row = .ok () := by
  rw [checkFields_eq_ok_iff]
  induction e using Scalar.induction with
  | field pos type => simp [tokens, Token.Fits]
  | cast e type ih =>
    rw [tokens, List.forall_mem_cons, List.forall_mem_append, List.forall_mem_singleton, ih]
    simp [Token.Fits]
  | isNotNull e ih =>
    rw [tokens, List.forall_mem_append, List.forall_mem_singleton, ih]
    simp [Token.Fits]
  | conj es ih =>
    rw [tokens, fits_tokensAll_iff, positions_conj, List.forall_mem_flatMap]
    exact forall₂_congr ih

theorem isChain_tokensAll {es : List Scalar} (h : ∀ e ∈ es, e.tokens.IsChain Apart) :
    (tokensAll es).IsChain Apart := by
  induction es with
  | nil => exact .nil
  | cons e es ih =>
    rw [List.forall_mem_cons] at h
    cases es with
    | nil => exact h.1
    | cons f es => exact isChain_append_cons h.1 rfl ((ih h.2).cons fun _ _ => trivial)

/-- No name is followed by a word. -/
theorem isChain_tokens (e : Scalar) : e.tokens.IsChain Apart := by
  induction e using Scalar.induction with
  | field pos type => exact .singleton _
  | cast e type ih => exact .cons (isChain_append_cons ih rfl (.singleton _)) fun _ _ => trivial
  | isNotNull e ih => exact isChain_append_cons ih rfl (.singleton _)
  | conj es ih => exact isChain_tokensAll ih

/-- The text of an expression determines its tokens. -/
theorem tokens_eq_of_render_eq (legible : row.Legible) {e f : Scalar} (he : e.checkFields row = .ok ())
    (hf : f.checkFields row = .ok ()) (h : e.render row = f.render row) : e.tokens = f.tokens := by
  refine eq_of_spell_eq legible (fits_tokens_iff.2 he) (fits_tokens_iff.2 hf) (isChain_tokens e) (isChain_tokens f) ?_
  rw [spell_tokens, spell_tokens, h]

/-- Expressions with the same tokens have the same text. -/
theorem render_eq_of_tokens_eq {e f : Scalar} (h : e.tokens = f.tokens) : e.render row = f.render row := by
  rw [← String.toList_inj, ← spell_tokens, ← spell_tokens, h]

end Scalar

end QueryPlan
