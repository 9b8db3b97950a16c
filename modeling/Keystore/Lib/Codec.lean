import Mathlib.Data.List.Forall2
import Mathlib.Data.List.Perm.Basic

/-!
# Encoded tables

A store that keeps each value in an encoded form (encrypted, serialised) and decodes the rows
it reads back refines a store of the plain values when every stored code decodes to the value
at its position. Queries that only look at what the encoding keeps in the clear (a filter on
such a field, an offset, a limit, the order of a scan) then commute with decoding.

## Main definitions

* `Codec.Decodes dec codes vals` — the codes decode, one by one, to the values.

## Main results

* `Codec.decodes_iff_mapM` — `Decodes` is decoding every code without a failure.
* `Codec.Decodes.perm`, `Codec.Decodes.filter`, `Codec.Decodes.drop`, `Codec.Decodes.take`,
  `Codec.Decodes.append` — scans in any order, filters on clear fields, offsets, limits and
  appends commute with decoding.
* `Codec.Decodes.mapM_head?` — decoding the first row of a result is the first value.
-/

set_option autoImplicit false

namespace Codec

variable {α β : Type*} {dec : α → Option β}

/-- The codes `codes` decode one by one, under `dec`, to the values `vals`. -/
def Decodes (dec : α → Option β) (codes : List α) (vals : List β) : Prop :=
  List.Forall₂ (fun c v => dec c = some v) codes vals

@[simp] theorem decodes_nil : Decodes dec [] [] := List.Forall₂.nil

theorem decodes_cons {c : α} {v : β} {codes : List α} {vals : List β} :
    Decodes dec (c :: codes) (v :: vals) ↔ dec c = some v ∧ Decodes dec codes vals :=
  List.forall₂_cons

/-- `Decodes` is decoding all the codes in the option monad. -/
theorem decodes_iff_mapM {codes : List α} {vals : List β} :
    Decodes dec codes vals ↔ codes.mapM dec = some vals := by
  induction codes generalizing vals with
  | nil =>
    cases vals with
    | nil => simp
    | cons v vs => simp [Decodes]
  | cons c cs ih =>
    cases vals with
    | nil =>
      simp only [Decodes, List.forall₂_cons_left_iff, List.mapM_cons]
      cases dec c <;> cases cs.mapM dec <;> simp
    | cons v vs =>
      rw [decodes_cons, ih, List.mapM_cons]
      cases dec c <;> cases cs.mapM dec <;> simp

namespace Decodes

variable {codes : List α} {vals : List β}

/-- A scan that meets the codes in another order decodes to the values in an order of
their own. -/
theorem perm (h : Decodes dec codes vals) {codes' : List α} (hp : codes'.Perm codes) :
    ∃ vals', Decodes dec codes' vals' ∧ vals'.Perm vals :=
  List.perm_comp_forall₂ hp h

/-- A filter on what the codes keep in the clear is the same filter on the values. -/
theorem filter (h : Decodes dec codes vals) {p : α → Bool} {q : β → Bool}
    (hpq : ∀ c v, dec c = some v → p c = q v) :
    Decodes dec (codes.filter p) (vals.filter q) :=
  List.rel_filter (fun c v hcv => by simp only [hpq c v hcv]) h

theorem drop (h : Decodes dec codes vals) (n : ℕ) : Decodes dec (codes.drop n) (vals.drop n) :=
  List.forall₂_drop n h

theorem take (h : Decodes dec codes vals) (n : ℕ) : Decodes dec (codes.take n) (vals.take n) :=
  List.forall₂_take n h

theorem append (h : Decodes dec codes vals) {codes' : List α} {vals' : List β}
    (h' : Decodes dec codes' vals') : Decodes dec (codes ++ codes') (vals ++ vals') :=
  List.rel_append h h'

/-- Decoding the first code, if any, gives the first value. -/
theorem mapM_head? (h : Decodes dec codes vals) : codes.head?.mapM dec = some vals.head? := by
  cases h with
  | nil => rfl
  | cons hcv _ => simp [Option.mapM_some, hcv]

end Decodes

end Codec
