import Mathlib

/-!
# Shortest covering prefixes

A greedy selection takes the elements of a list in order and stops as soon as their total
weight reaches a target. What it selects is the shortest prefix of the list that covers the
target: it covers, and every shorter prefix falls short of it.

## Main definitions

* `Cover.weight` — the total weight of a list.
* `Cover.IsShortestCover` — the specification: a prefix that covers the target, every
  shorter prefix of which does not.
* `Cover.shortestCover` — the greedy selection, by structural recursion, `none` when the
  whole list does not cover the target.

## Main results

* `Cover.shortestCover_eq_none_iff` — the selection fails exactly when the whole list weighs
  less than the target.
* `Cover.shortestCover_eq_some_iff` — the selection meets the specification, and the
  specification has no other solution.
* `Cover.shortestCover_eq_self_iff` — a nonempty list is its own shortest cover exactly when
  it covers and dropping its last element does not.

## Design

The target is consumed as the recursion goes: covering `t` with `a :: l` is covering
`t - w a` with `l`, in truncated subtraction, so a target already reached is `0` and the
empty prefix covers it.
-/

set_option autoImplicit false

namespace Cover

variable {α : Type} (w : α → ℕ)

/-- The total weight of a list. -/
def weight (l : List α) : ℕ := (l.map w).sum

@[simp] theorem weight_nil : weight w [] = 0 := rfl

@[simp] theorem weight_cons (a : α) (l : List α) : weight w (a :: l) = w a + weight w l := by
  simp [weight]

theorem weight_append (l₁ l₂ : List α) : weight w (l₁ ++ l₂) = weight w l₁ + weight w l₂ := by
  simp [weight]

theorem weight_take_le (l : List α) (n : ℕ) : weight w (l.take n) ≤ weight w l := by
  induction l generalizing n with
  | nil => simp
  | cons a l ih =>
    cases n with
    | zero => simp
    | succ n => simpa using ih n

/-- **The specification.** `p` is the shortest prefix of `l` whose weight reaches `t`. -/
structure IsShortestCover (t : ℕ) (l p : List α) : Prop where
  isPrefix : p <+: l
  covers : t ≤ weight w p
  minimal : ∀ n < p.length, weight w (l.take n) < t

/-- The greedy selection: the elements of `l` in order until their weight reaches `t`. -/
def shortestCover (t : ℕ) : List α → Option (List α)
  | [] => if t = 0 then some [] else none
  | a :: l => if t = 0 then some [] else (shortestCover (t - w a) l).map (a :: ·)

/-- **The selection fails exactly when the whole list falls short.** -/
theorem shortestCover_eq_none_iff {t : ℕ} {l : List α} :
    shortestCover w t l = none ↔ weight w l < t := by
  induction l generalizing t with
  | nil => simp [shortestCover, Nat.pos_iff_ne_zero]
  | cons a l ih =>
    by_cases ht : t = 0
    · simp [shortestCover, ht]
    · simp only [shortestCover, if_neg ht, Option.map_eq_none_iff, ih, weight_cons]
      omega

/-- One step of the specification: a shortest cover of a positive target by `a :: l` is `a`
followed by a shortest cover of what is left of the target by `l`. -/
theorem isShortestCover_cons_iff {t : ℕ} (ht : t ≠ 0) {a : α} {l p : List α} :
    IsShortestCover w t (a :: l) p ↔
      ∃ q, p = a :: q ∧ IsShortestCover w (t - w a) l q := by
  constructor
  · rintro ⟨hpre, hcov, hmin⟩
    -- the empty prefix does not cover a positive target, so `p` starts with `a`
    obtain _ | ⟨b, q⟩ := p
    · simp at hcov; omega
    obtain ⟨rfl, hq⟩ := List.cons_prefix_cons.mp hpre
    refine ⟨q, rfl, hq, by simp at hcov; omega, fun n hn => ?_⟩
    have := hmin (n + 1) (by simpa using hn)
    simp at this
    omega
  · rintro ⟨q, rfl, hq, hcov, hmin⟩
    refine ⟨List.cons_prefix_cons.mpr ⟨rfl, hq⟩, by simp; omega, fun n hn => ?_⟩
    cases n with
    | zero => simp; omega
    | succ n =>
      have := hmin n (by simpa using hn)
      simp
      omega

/-- **The greedy selection meets the specification**, and it is the only prefix that does. -/
theorem shortestCover_eq_some_iff {t : ℕ} {l p : List α} :
    shortestCover w t l = some p ↔ IsShortestCover w t l p := by
  induction l generalizing t p with
  | nil =>
    -- the only prefix of the empty list is itself, of weight `0`
    constructor
    · intro h
      have ht : t = 0 := by by_contra ht; simp [shortestCover, ht] at h
      simp [shortestCover, ht] at h
      subst h
      exact ⟨List.prefix_refl _, by simp [ht], by simp⟩
    · rintro ⟨hpre, hcov, -⟩
      rw [List.prefix_nil.mp hpre] at hcov ⊢
      simp at hcov
      simp [shortestCover, hcov]
  | cons a l ih =>
    by_cases ht : t = 0
    · -- a reached target: the empty prefix, which is the only one with no shorter prefix
      subst ht
      simp only [shortestCover, if_pos, Option.some.injEq]
      constructor
      · rintro rfl
        exact ⟨List.nil_prefix, by simp, by simp⟩
      · rintro ⟨-, -, hmin⟩
        cases p with
        | nil => rfl
        | cons b q => simpa using hmin 0 (by simp)
    · rw [isShortestCover_cons_iff w ht]
      simp only [shortestCover, if_neg ht, Option.map_eq_some_iff, ih]
      constructor
      · rintro ⟨q, hq, rfl⟩
        exact ⟨q, rfl, hq⟩
      · rintro ⟨q, rfl, hq⟩
        exact ⟨q, hq, rfl⟩

/-- A covering prefix that is the whole list is the shortest one exactly when dropping the
last element leaves the target uncovered. -/
theorem isShortestCover_self_iff {t : ℕ} {l : List α} (hl : l ≠ []) :
    IsShortestCover w t l l ↔ t ≤ weight w l ∧ weight w l.dropLast < t := by
  constructor
  · rintro ⟨-, hcov, hmin⟩
    refine ⟨hcov, ?_⟩
    have := hmin (l.length - 1) (by have := List.length_pos_iff.mpr hl; omega)
    rwa [← List.dropLast_eq_take] at this
  · rintro ⟨hcov, hlast⟩
    refine ⟨List.prefix_refl _, hcov, fun n hn => ?_⟩
    -- a shorter prefix is a prefix of `l.dropLast`
    have hle : weight w (l.take n) ≤ weight w l.dropLast := by
      have htake : l.take n = l.dropLast.take n := by
        rw [List.dropLast_eq_take, List.take_take, Nat.min_eq_left (by omega)]
      rw [htake]
      exact weight_take_le w _ n
    omega

theorem shortestCover_eq_self_iff {t : ℕ} {l : List α} (hl : l ≠ []) :
    shortestCover w t l = some l ↔ t ≤ weight w l ∧ weight w l.dropLast < t := by
  rw [shortestCover_eq_some_iff, isShortestCover_self_iff w hl]

end Cover
