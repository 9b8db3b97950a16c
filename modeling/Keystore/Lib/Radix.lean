import Keystore.Rust.Core
import Mathlib.Data.Nat.Digits.Lemmas
import Mathlib.Algebra.GroupWithZero.Basic
import Mathlib.Tactic.Ring
import Mathlib.Data.List.TakeWhile

/-!
# Positional numerals

Numbers written as lists of digits in a base `b`, in the forms a codec meets them:

* `Radix.value` — the big-endian value of a digit list, the Horner fold `acc * b + d`;
* `Radix.checkedHorner` — the same fold in an unsigned type with `n` values, every product
  and sum checked, as a decoder loop computes it;
* `Radix.weightedValue` — the value `∑ᵢ lᵢ · b^(w - i)` of a digit list whose leading digit
  has weight `w`, a fraction when the weights run below zero;
* stripping the low-order zero digits of a little-endian list (`List.dropWhile`), which
  divides its value by a power of the base.

## Main results

* `Radix.checkedHorner_eq_some_iff` — the checked fold succeeds exactly when the value fits,
  and then returns it.
* `Radix.weightedValue_eq` — a weighted digit list is its Horner value times a power.
* `Radix.ofDigits_eq_pow_mul_dropWhile` — the value of a little-endian list is a power of the
  base times the value of the list with its low zeros dropped.
-/

set_option autoImplicit false

namespace Radix

/-! ## The Horner value -/

section Value

variable {R : Type*} [CommSemiring R] (b : R)

/-- The big-endian value of a digit list. -/
def value (l : List R) : R := l.foldl (fun acc d => acc * b + d) 0

/-- The Horner fold from any accumulator. -/
theorem foldl_horner (l : List R) (acc : R) :
    l.foldl (fun acc d => acc * b + d) acc = acc * b ^ l.length + value b l := by
  induction l generalizing acc with
  | nil => simp [value]
  | cons d l ih =>
    have hv : value b (d :: l) = (0 * b + d) * b ^ l.length + value b l := by
      rw [value, List.foldl_cons, ih]
    rw [List.foldl_cons, ih, hv, List.length_cons]
    ring

@[simp] theorem value_nil : value b [] = 0 := rfl

theorem value_cons (d : R) (l : List R) : value b (d :: l) = d * b ^ l.length + value b l := by
  rw [value, List.foldl_cons, foldl_horner, zero_mul, zero_add]

theorem map_value {S : Type*} [CommSemiring S] (f : R →+* S) (l : List R) :
    f (value b l) = value (f b) (l.map f) := by
  induction l with
  | nil => simp
  | cons d l ih =>
    rw [List.map_cons, value_cons, value_cons, map_add, map_mul, map_pow, ih, List.length_map]

end Value

/-- Over `ℕ` the big-endian value is `Nat.ofDigits` of the reversed list. -/
theorem value_eq_ofDigits (b : ℕ) (l : List ℕ) : value b l = Nat.ofDigits b l.reverse := by
  induction l with
  | nil => rfl
  | cons d l ih =>
    rw [value_cons, ih, List.reverse_cons, Nat.ofDigits_append, List.length_reverse,
      Nat.ofDigits_singleton]
    ring

/-! ## The checked Horner fold -/

/-- The Horner fold in an unsigned type with `n` values: `acc.checked_mul(b)` then
`.checked_add(d)` for every digit, stopping at the first overflow. -/
def checkedHorner {n : ℕ} (b : Fin n) : Fin n → List (Fin n) → Option (Fin n)
  | acc, [] => some acc
  | acc, d :: ds =>
    match (Rust.checkedMul acc b).bind (fun r => Rust.checkedAdd r d) with
    | none => none
    | some acc' => checkedHorner b acc' ds

/-- **The checked fold computes the value when it fits.** From `acc`, the fold over `ds`
succeeds exactly when `acc · b^|ds| + value ds` is below `n`, and returns that number.

**Proof sketch.** Induction on `ds`. With a positive base every intermediate accumulator is at
most the final value, so an overflow at any step means the final value does not fit. -/
theorem checkedHorner_eq_some_iff {n : ℕ} (b : Fin n) (hb : 0 < b.val) (ds : List (Fin n))
    (acc r : Fin n) :
    checkedHorner b acc ds = some r ↔
      acc.val * b.val ^ ds.length + value b.val (ds.map Fin.val) < n ∧
        r.val = acc.val * b.val ^ ds.length + value b.val (ds.map Fin.val) := by
  induction ds generalizing acc with
  | nil =>
    simp only [checkedHorner, Option.some.injEq, List.length_nil, pow_zero, mul_one,
      List.map_nil, value_nil, add_zero, Fin.ext_iff]
    exact ⟨fun h => ⟨acc.isLt, h.symm⟩, fun h => h.2.symm⟩
  | cons d ds ih =>
    have hpow : 1 ≤ b.val ^ ds.length := Nat.one_le_pow _ _ hb
    have hfinal : acc.val * b.val ^ (d :: ds).length + value b.val ((d :: ds).map Fin.val) =
        (acc.val * b.val + d.val) * b.val ^ ds.length + value b.val (ds.map Fin.val) := by
      simp only [List.length_cons, List.map_cons, value_cons, List.length_map]
      ring
    rw [hfinal]
    by_cases hmul : acc.val * b.val < n
    · by_cases hadd : acc.val * b.val + d.val < n
      · have hstep : (Rust.checkedMul acc b).bind (fun r => Rust.checkedAdd r d) =
            some ⟨acc.val * b.val + d.val, hadd⟩ := by
          simp [Rust.checkedMul, Rust.checkedAdd, hmul, hadd]
        simp only [checkedHorner, hstep]
        exact ih _
      · have hstep : (Rust.checkedMul acc b).bind (fun r => Rust.checkedAdd r d) = none := by
          simp [Rust.checkedMul, Rust.checkedAdd, hmul, hadd]
        simp only [checkedHorner, hstep, reduceCtorEq, false_iff, not_and]
        intro hlt
        have : acc.val * b.val + d.val ≤ (acc.val * b.val + d.val) * b.val ^ ds.length :=
          Nat.le_mul_of_pos_right _ hpow
        omega
    · have hstep : (Rust.checkedMul acc b).bind (fun r => Rust.checkedAdd r d) = none := by
        simp [Rust.checkedMul, hmul]
      simp only [checkedHorner, hstep, reduceCtorEq, false_iff, not_and]
      intro hlt
      have : acc.val * b.val + d.val ≤ (acc.val * b.val + d.val) * b.val ^ ds.length :=
        Nat.le_mul_of_pos_right _ hpow
      omega

/-! ## Weighted digit lists -/

/-- The value `∑ᵢ lᵢ · b^(w - i)` of the digit list `l` whose leading digit has weight `w`. -/
def weightedValue {K : Type*} [DivisionRing K] (b : K) : ℤ → List K → K
  | _, [] => 0
  | w, d :: ds => d * b ^ w + weightedValue b (w - 1) ds

/-- A weighted digit list is its Horner value times `b` to the weight of its last digit. -/
theorem weightedValue_eq {K : Type*} [Field K] {b : K} (hb : b ≠ 0) (w : ℤ) (l : List K) :
    weightedValue b w l = value b l * b ^ (w - l.length + 1) := by
  induction l generalizing w with
  | nil => simp [weightedValue]
  | cons d ds ih =>
    rw [weightedValue, ih, value_cons, List.length_cons]
    have hsplit : b ^ w = b ^ (ds.length : ℤ) * b ^ (w - 1 - ds.length + 1) := by
      rw [← zpow_add₀ hb]; congr 1; ring
    rw [hsplit, zpow_natCast]
    push_cast
    ring_nf

/-! ## Low-order zeros of a little-endian list -/

/-- Dropping the low-order zeros of a little-endian digit list divides its value by `b` to the
number of zeros dropped. -/
theorem ofDigits_eq_pow_mul_dropWhile (b : ℕ) (l : List ℕ) :
    Nat.ofDigits b l =
      b ^ (l.length - (l.dropWhile (· == 0)).length) * Nat.ofDigits b (l.dropWhile (· == 0)) := by
  induction l with
  | nil => simp
  | cons d l ih =>
    by_cases hd : d = 0
    · have hle : (l.dropWhile (· == 0)).length ≤ l.length := (List.dropWhile_suffix _).length_le
      have hexp : (l.length + 1 - (l.dropWhile (· == 0)).length) =
          (l.length - (l.dropWhile (· == 0)).length) + 1 := by omega
      simp only [hd, List.dropWhile_cons, beq_self_eq_true, ↓reduceIte, List.length_cons,
        Nat.ofDigits_cons, zero_add, hexp, pow_succ]
      rw [ih]
      ring
    · simp [hd]

/-- A little-endian list whose last digit is not zero keeps that digit when its low zeros
are dropped. -/
theorem getLast_dropWhile {l : List ℕ} (hl : l ≠ []) (hlast : l.getLast hl ≠ 0) :
    ∃ h : l.dropWhile (· == 0) ≠ [], (l.dropWhile (· == 0)).getLast h = l.getLast hl := by
  have hne : l.dropWhile (· == 0) ≠ [] := by
    intro hnil
    rw [List.dropWhile_eq_nil_iff] at hnil
    exact hlast (by simpa using hnil _ (List.getLast_mem hl))
  exact ⟨hne, (List.dropWhile_suffix _).getLast hne⟩

end Radix
