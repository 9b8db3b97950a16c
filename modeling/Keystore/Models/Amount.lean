import Mathlib
import Keystore.Lib.Radix

/-!
# `models::amount`: amounts and their Postgres `NUMERIC` codec

An `Amount` is a `u128` number of the smallest units of a coin. It is stored in Postgres as
a `NUMERIC`, which diesel hands over as a `PgNumeric`: a sign, a weight, a display scale and a
list of base-10000 digits, the first of which has weight `weight`. The encoder
`u128_to_pg_decimal` splits the amount into base-10000 digits with the iterator
`ToBase10000`, drops the low zero digits and reverses; the decoder `pg_decimal_to_u128`
folds the digits back with checked arithmetic and multiplies by `10^(4 · #dropped digits)`,
a power computed with the unchecked `pow` that the source marks with a `Todo`.

Integer casts and arithmetic follow a release build: `i16` and `i32` wrap, and so does
`u128::pow`.

## Main definitions

* `Keystore.Amount`, `Keystore.PgNumeric`.
* `Keystore.ToBase10000` — the digit iterator, with `next` and `collect`.
* `Keystore.pgDecimalToU128`, `Keystore.u128ToPgDecimal` — the codec.
* `Keystore.exactValue` — the rational number a `PgNumeric` denotes.
* `Keystore.IsCanonicalFor` — the canonical numeric of an unsigned integer.

## Main results

* `Keystore.u128ToPgDecimal_eq` — what the encoder produces, in terms of `Nat.digits`.
* `Keystore.pgDecimalToU128_positive` — what the decoder returns on well-formed digits.
* `Keystore.pgDecimal_roundTrip` — the codec round-trips on all of `u128` and on canonical
  numerics.
* `Keystore.pgDecimalToU128_wraps` — a large weight makes the correction power wrap.
-/

set_option autoImplicit false

namespace Keystore

instance neZero_two_pow_128 : NeZero (2 ^ 128 : ℕ) := ⟨by norm_num⟩

/-! ## Amounts -/

/-- `models::Amount`: a monetary amount, a `u128`. -/
structure Amount where
  inner : Fin (2 ^ 128)
  deriving DecidableEq, Repr

namespace Amount

/-- `Amount::new`. -/
def new (val : Fin (2 ^ 128)) : Amount := ⟨val⟩

/-- `Amount::checked_add`: `None` on overflow. -/
def checkedAdd (a b : Amount) : Option Amount := (Rust.checkedAdd a.inner b.inner).map Amount.mk

/-- `Amount::u64`: the amount as a `u64`, if it fits. -/
def u64 (a : Amount) : Option UInt64 :=
  if a.inner.val ≤ 2 ^ 64 - 1 then some (UInt64.ofNat a.inner.val) else none

/-- `Ord for Amount` compares the inner values. -/
instance : LE Amount := ⟨fun a b => a.inner ≤ b.inner⟩

instance : LT Amount := ⟨fun a b => a.inner < b.inner⟩

instance (a b : Amount) : Decidable (a ≤ b) := inferInstanceAs (Decidable (a.inner ≤ b.inner))

instance (a b : Amount) : Decidable (a < b) := inferInstanceAs (Decidable (a.inner < b.inner))

theorem checkedAdd_eq_some {a b c : Amount} :
    a.checkedAdd b = some c ↔ a.inner.val + b.inner.val < 2 ^ 128 ∧
      c.inner.val = a.inner.val + b.inner.val := by
  rcases c with ⟨c⟩
  simp only [checkedAdd, Option.map_eq_some_iff, Amount.mk.injEq, exists_eq_right]
  exact Rust.checkedAdd_eq_some

theorem u64_eq_some {a : Amount} {x : UInt64} :
    a.u64 = some x ↔ a.inner.val < 2 ^ 64 ∧ x.toNat = a.inner.val := by
  have hsize : UInt64.size = 2 ^ 64 := rfl
  unfold u64
  split
  · have hlt : a.inner.val < UInt64.size := by omega
    simp only [Option.some.injEq]
    constructor
    · rintro rfl
      exact ⟨by omega, UInt64.toNat_ofNat_of_lt' hlt⟩
    · rintro ⟨-, hx⟩
      apply UInt64.toNat_inj.mp
      rw [hx, UInt64.toNat_ofNat_of_lt' hlt]
  · simp only [reduceCtorEq, false_iff, not_and]
    intro h; omega

end Amount

/-! ## Postgres numerics -/

/-- diesel's `PgNumeric`: a sign, the weight of the first digit, the display scale, and the
base-10000 digits. -/
inductive PgNumeric
  | positive (weight : Int16) (scale : UInt16) (digits : List Int16)
  | negative (weight : Int16) (scale : UInt16) (digits : List Int16)
  | nan
  deriving DecidableEq, Repr

/-- The value `∑ᵢ digits[i] · 10000^(weight - i)` that a numeric with these digits denotes, as
a rational; the display scale does not change it. -/
def exactValue (weight : Int16) (digits : List Int16) : ℚ :=
  Radix.weightedValue 10000 weight.toInt (digits.map fun d => (d.toInt : ℚ))

/-! ## The encoder -/

/-- `ToBase10000`: an iterator over the base-10000 digits of a `u128`, least significant
first; the state is the part of the number not yet emitted. -/
structure ToBase10000 where
  state : Option ℕ

namespace ToBase10000

/-- `ToBase10000::next`: emit `v % 10000` and keep `v / 10000`, unless that is zero. -/
def next (it : ToBase10000) : Option Int16 × ToBase10000 :=
  match it.state with
  | none => (none, ⟨none⟩)
  | some v =>
    let rem := v % 10000
    let div := v / 10000
    (some (Int16.ofNat rem), ⟨if div ≠ 0 then some div else none⟩)

/-- A bound on the number of digits still to come. -/
def size (it : ToBase10000) : ℕ := (it.state.map (· + 1)).getD 0

/-- `collect` with at most `fuel` calls to `next`. -/
def collectAux : ℕ → ToBase10000 → List Int16
  | 0, _ => []
  | fuel + 1, it =>
    match it.next with
    | (none, _) => []
    | (some d, rest) => d :: collectAux fuel rest

/-- `collect::<Vec<_>>()`: `next` until it returns `None`. Every call shrinks the state, so
`size` calls are enough (`collectAux_some`). -/
def collect (it : ToBase10000) : List Int16 := collectAux it.size it

theorem collectAux_none (fuel : ℕ) : collectAux fuel ⟨none⟩ = [] := by
  cases fuel <;> rfl

end ToBase10000

/-- The base-10000 digits of `v`, least significant first, as `ToBase10000` emits them: one
zero digit for zero. -/
def base10000Digits (v : ℕ) : List ℕ := if v = 0 then [0] else Nat.digits 10000 v

theorem ToBase10000.collectAux_some (fuel v : ℕ) (hv : v < fuel) :
    collectAux fuel ⟨some v⟩ = (base10000Digits v).map Int16.ofNat := by
  induction fuel generalizing v with
  | zero => omega
  | succ fuel ih =>
    simp only [collectAux, next]
    by_cases hdiv : v / 10000 = 0
    · have hlt : v < 10000 := by omega
      simp only [hdiv, ne_eq, not_true_eq_false, ↓reduceIte, collectAux_none, base10000Digits]
      by_cases h0 : v = 0
      · simp [h0]
      · simp [h0, Nat.digits_of_lt 10000 v h0 hlt, Nat.mod_eq_of_lt hlt]
    · have hpos : 0 < v := by omega
      have hlt : v / 10000 < fuel := by omega
      simp only [hdiv, ne_eq, not_false_eq_true, ↓reduceIte, ih _ hlt, base10000Digits,
        Nat.pos_iff_ne_zero.mp hpos, Nat.digits_def' (by norm_num : 1 < 10000) hpos,
        List.map_cons]

theorem ToBase10000.collect_some (v : ℕ) :
    (ToBase10000.mk (some v)).collect = (base10000Digits v).map Int16.ofNat :=
  collectAux_some _ v (by simp [size])

/-- `u128_to_pg_decimal`: the digits of the iterator, the weight of the most significant one,
then the low zero digits dropped and the rest reversed to most significant first. -/
def u128ToPgDecimal (value : Fin (2 ^ 128)) : PgNumeric :=
  let digits := (ToBase10000.mk (some value.val)).collect
  let weight := Int16.ofNat digits.length - 1
  let digits := (digits.dropWhile (· == 0)).reverse
  .positive weight 0 digits

/-! ## The decoder -/

/-- The digits phase of `pg_decimal_to_u128`: `result * 10000 + digit as u128` over the digits,
every product and sum checked. -/
def digitsPhase (digits : List Int16) : Option (Fin (2 ^ 128)) :=
  Radix.checkedHorner 10000 0 (digits.map fun d => Rust.asUnsigned 128 d.toInt)

/-- `4 * ((weight as i32) - (digits.len() as i32) + 1)`, in wrapping `i32` arithmetic. -/
def correctionExp (weight : Int16) (len : ℕ) : Int32 :=
  4 * (weight.toInt32 - Int32.ofNat len + 1)

/-- `pg_decimal_to_u128`. An error carries the source's message, without the `{:#?}` dump of
the numeric that follows it. -/
def pgDecimalToU128 (numeric : PgNumeric) : Except String (Fin (2 ^ 128)) :=
  match numeric with
  | .negative .. => .error "Negative is not supported in u128"
  | .nan => .error "NaN is not supported in u128"
  | .positive weight scale digits =>
    if scale ≠ 0 then .error "Nonzero scale is not supported in u128"
    else if weight < 0 then .error "Negative weight is not supported in u128"
    else
      match digitsPhase digits with
      | none => .error "Overflow in Pgnumeric to u128 (digits phase)"
      | some result =>
        let correctionExp := correctionExp weight digits.length
        if correctionExp < 0 then .error "Negative correction exp is not supported in u128"
        else
          -- `10u128.pow(correction_exp as u32)` is unchecked: it wraps in a release build
          let pow := Rust.wrappingPow 10 correctionExp.toUInt32.toNat
          match Rust.checkedMul result pow with
          | none => .error "Overflow in Pgnumeric to u128 (correction phase)"
          | some result => .ok result

/-- `FromSql<Numeric, Pg> for Amount`, once diesel has parsed the bytes into a `PgNumeric`. -/
def Amount.fromSql (numeric : PgNumeric) : Except String Amount :=
  (pgDecimalToU128 numeric).map Amount.mk

section Decoder

/-- Without wrapping, the correction exponent is four times the weight of the last digit. -/
theorem toInt_correctionExp {weight : Int16} {len : ℕ} (hw : 0 ≤ weight.toInt)
    (hlen : (len : ℤ) ≤ weight.toInt + 1) :
    (correctionExp weight len).toInt = 4 * (weight.toInt - len + 1) := by
  have hw' : weight.toInt < 2 ^ 15 := weight.toInt_lt
  have hlen' : len < 2 ^ 31 := by omega
  have hofNat : (Int32.ofNat len).toInt = len := Int32.toInt_ofNat_of_lt hlen'
  simp only [correctionExp, Int32.toInt_mul, Int32.toInt_add, Int32.toInt_sub,
    Int16.toInt_toInt32, hofNat]
  have hdiff : (weight.toInt - (len : ℤ)).bmod (2 ^ 32) = weight.toInt - len :=
    Int.bmod_eq_of_le (by omega) (by omega)
  rw [hdiff]
  have hsucc : (weight.toInt - (len : ℤ) + (1 : Int32).toInt).bmod (2 ^ 32) =
      weight.toInt - len + 1 := by
    rw [show (1 : Int32).toInt = 1 from rfl]
    exact Int.bmod_eq_of_le (by omega) (by omega)
  rw [hsucc, show (4 : Int32).toInt = 4 from rfl]
  exact Int.bmod_eq_of_le (by omega) (by omega)

/-- Digits below `2^15` survive the round trip through `i16` and the cast `as u128`. -/
theorem map_asUnsigned_ofNat (ns : List ℕ) (hns : ∀ n ∈ ns, n < 2 ^ 15) :
    ((ns.map Int16.ofNat).map fun d => Rust.asUnsigned 128 d.toInt).map Fin.val = ns := by
  induction ns with
  | nil => rfl
  | cons n ns ih =>
    have hn : n < 2 ^ 15 := hns n (by simp)
    have hval : (Rust.asUnsigned 128 (Int16.ofNat n).toInt).val = n := by
      rw [Int16.toInt_ofNat_of_lt hn, Rust.asUnsigned_of_nonneg (by omega) (by omega)]
      rfl
    simp only [List.map_cons, hval, ih (fun m hm => hns m (by simp [hm]))]

/-- The digits phase on digits `ns` computes their big-endian value when it fits. -/
theorem digitsPhase_ofNat (ns : List ℕ) (hns : ∀ n ∈ ns, n < 2 ^ 15)
    (hfit : Radix.value 10000 ns < 2 ^ 128) :
    digitsPhase (ns.map Int16.ofNat) = some ⟨Radix.value 10000 ns, hfit⟩ := by
  have key := Radix.checkedHorner_eq_some_iff (10000 : Fin (2 ^ 128)) (by decide)
    ((ns.map Int16.ofNat).map fun d => Rust.asUnsigned 128 d.toInt) 0 ⟨Radix.value 10000 ns, hfit⟩
  rw [map_asUnsigned_ofNat ns hns] at key
  simp only [Fin.val_zero, zero_mul, zero_add] at key
  exact key.mpr ⟨hfit, rfl⟩

/-- **The decoder on well-formed digits.** A positive numeric of scale `0` with digits
`ns < 10000`, whose last digit has a non-negative weight `k`, decodes to `value ns · 10000^k`
whenever that fits in a `u128`.

**Proof sketch.** The digits phase computes `value ns` (`digitsPhase_ofNat`), the correction
exponent is `4k`, and the wrapped power is exact whenever it matters: if `value ns = 0` the
product is `0` whatever the power, and otherwise `10000^k ≤ value ns · 10000^k < 2^128`. -/
theorem pgDecimalToU128_positive {weight : Int16} {ns : List ℕ} (hw : 0 ≤ weight.toInt)
    (hns : ∀ n ∈ ns, n < 10000) (hlen : (ns.length : ℤ) ≤ weight.toInt + 1)
    (hfit : Radix.value 10000 ns * 10000 ^ (weight.toInt + 1 - ns.length).toNat < 2 ^ 128) :
    pgDecimalToU128 (.positive weight 0 (ns.map Int16.ofNat)) =
      .ok ⟨Radix.value 10000 ns * 10000 ^ (weight.toInt + 1 - ns.length).toNat, hfit⟩ := by
  set k := (weight.toInt + 1 - ns.length).toNat with hk
  have hpow1 : 1 ≤ 10000 ^ k := Nat.one_le_pow _ _ (by norm_num)
  have hvfit : Radix.value 10000 ns < 2 ^ 128 :=
    lt_of_le_of_lt (Nat.le_mul_of_pos_right _ hpow1) hfit
  have hns' : ∀ n ∈ ns, n < 2 ^ 15 := fun n hn => by have := hns n hn; omega
  have hexp : (correctionExp weight (ns.map Int16.ofNat).length).toInt = 4 * k := by
    rw [List.length_map, toInt_correctionExp hw hlen]
    omega
  have hnotneg : ¬ correctionExp weight (ns.map Int16.ofNat).length < 0 := by
    rw [Int32.lt_iff_toInt_lt, hexp]
    simp
  have hnat : (correctionExp weight (ns.map Int16.ofNat).length).toUInt32.toNat = 4 * k := by
    rw [Int32.toNat_toUInt32_of_le (by rw [Int32.le_iff_toInt_le, hexp]; simp),
      Int32.toNatClampNeg, hexp]
    omega
  have hweight : ¬ weight < 0 := by
    rw [Int16.lt_iff_toInt_lt]
    simpa using hw
  -- the wrapped power is harmless: `value ns = 0`, or the true power fits
  have hprod : Radix.value 10000 ns * (10 ^ (4 * k) % 2 ^ 128) =
      Radix.value 10000 ns * 10000 ^ k := by
    rcases Nat.eq_zero_or_pos (Radix.value 10000 ns) with h0 | hpos
    · simp [h0]
    · have hpk : 10 ^ (4 * k) = 10000 ^ k := by rw [pow_mul]; norm_num
      have hle : 10000 ^ k ≤ Radix.value 10000 ns * 10000 ^ k := Nat.le_mul_of_pos_left _ hpos
      rw [hpk, Nat.mod_eq_of_lt (lt_of_le_of_lt hle hfit)]
  have h10 : ((10 : Fin (2 ^ 128)) : ℕ) = 10 := rfl
  have hmul : Rust.checkedMul (⟨Radix.value 10000 ns, hvfit⟩ : Fin (2 ^ 128))
      (Rust.wrappingPow 10 (4 * k)) = some ⟨_, hfit⟩ := by
    rw [Rust.checkedMul_eq_some, Rust.wrappingPow_val, h10, hprod]
    exact ⟨hfit, rfl⟩
  simp only [pgDecimalToU128, ne_eq, not_true_eq_false, ↓reduceIte, hweight,
    digitsPhase_ofNat ns hns' hvfit, hnotneg, hnat, hmul]
  rfl

end Decoder

/-! ## The encoder's digits -/

section Encoder

theorem ofNat_eq_zero_iff {n : ℕ} (hn : n < 2 ^ 15) : Int16.ofNat n = 0 ↔ n = 0 := by
  rw [← Int16.toInt_inj, Int16.toInt_ofNat_of_lt hn, Int16.toInt_zero]
  omega

theorem ofNat_toNat_toInt {d : Int16} (hd : 0 ≤ d.toInt) : Int16.ofNat d.toInt.toNat = d := by
  have hlt : d.toInt.toNat < 2 ^ 15 := by have := d.toInt_lt; omega
  rw [← Int16.toInt_inj, Int16.toInt_ofNat_of_lt hlt]
  omega

theorem lt_of_mem_base10000Digits {v n : ℕ} (hn : n ∈ base10000Digits v) : n < 10000 := by
  unfold base10000Digits at hn
  split at hn
  · simp only [List.mem_singleton] at hn; omega
  · exact Nat.digits_lt_base (by norm_num) hn

theorem ofDigits_base10000Digits (v : ℕ) : Nat.ofDigits 10000 (base10000Digits v) = v := by
  unfold base10000Digits
  split
  · simp [*]
  · exact Nat.ofDigits_digits 10000 v

theorem base10000Digits_of_ne_zero {v : ℕ} (hv : v ≠ 0) : base10000Digits v = Nat.digits 10000 v :=
  if_neg hv

theorem length_base10000Digits (v : ℕ) : (base10000Digits v).length = Nat.log 10000 v + 1 := by
  by_cases hv : v = 0
  · simp [base10000Digits, hv]
  · rw [base10000Digits_of_ne_zero hv, Nat.length_digits 10000 v (by norm_num) hv]

theorem length_base10000Digits_le {v : ℕ} (hv : v < 2 ^ 128) : (base10000Digits v).length ≤ 10 := by
  by_cases h0 : v = 0
  · simp [base10000Digits, h0]
  · rw [base10000Digits_of_ne_zero h0, Nat.digits_length_le_iff (by norm_num)]
    exact lt_of_lt_of_le hv (by norm_num)

/-- Dropping zero digits commutes with the cast of small digits into `i16`. -/
theorem dropWhile_map_ofNat (l : List ℕ) (hl : ∀ n ∈ l, n < 2 ^ 15) :
    (l.map Int16.ofNat).dropWhile (· == 0) = (l.dropWhile (· == 0)).map Int16.ofNat := by
  induction l with
  | nil => rfl
  | cons n l ih =>
    have hn : n < 2 ^ 15 := hl n (by simp)
    by_cases h0 : n = 0
    · simp only [List.map_cons, List.dropWhile_cons, h0, beq_self_eq_true, ↓reduceIte]
      rw [show (Int16.ofNat 0 == 0) = true from rfl]
      exact ih (fun m hm => hl m (by simp [hm]))
    · have hne : (Int16.ofNat n == 0) = false := by
        simpa using (ofNat_eq_zero_iff hn).not.mpr h0
      simp [hne, h0]

/-- The digits the encoder keeps: the base-10000 digits of `v` with their low zeros dropped,
least significant first. -/
def keptDigits (v : ℕ) : List ℕ := (base10000Digits v).dropWhile (· == 0)

/-- **What the encoder produces.** With `L` the base-10000 digits of the value, least
significant first: the weight is `|L| - 1`, and the digits are `L` with its low zeros dropped,
most significant first. -/
theorem u128ToPgDecimal_eq (value : Fin (2 ^ 128)) :
    u128ToPgDecimal value =
      .positive (Int16.ofNat (base10000Digits value.val).length - 1) 0
        ((keptDigits value.val).reverse.map Int16.ofNat) := by
  have hsmall : ∀ n ∈ base10000Digits value.val, n < 2 ^ 15 := fun n hn => by
    have := lt_of_mem_base10000Digits hn; omega
  simp only [u128ToPgDecimal, ToBase10000.collect_some, List.length_map,
    dropWhile_map_ofNat _ hsmall, List.map_reverse, keptDigits]

/-- The weight `|L| - 1` of the encoder, as an integer. -/
theorem toInt_weight {len : ℕ} (h1 : 1 ≤ len) (h2 : len ≤ 10) :
    (Int16.ofNat len - 1).toInt = len - 1 := by
  rw [Int16.toInt_sub, Int16.toInt_ofNat_of_lt (by omega), show (1 : Int16).toInt = 1 from rfl]
  exact Int.bmod_eq_of_le (by omega) (by omega)

/-- The exact value of small natural digits. -/
theorem exactValue_ofNat (weight : Int16) (ns : List ℕ) (hns : ∀ n ∈ ns, n < 2 ^ 15) :
    exactValue weight (ns.map Int16.ofNat) =
      ((Radix.value 10000 ns : ℕ) : ℚ) * 10000 ^ (weight.toInt - ns.length + 1) := by
  have hcast : (ns.map Int16.ofNat).map (fun d => (d.toInt : ℚ)) = ns.map (Nat.castRingHom ℚ) := by
    rw [List.map_map]
    apply List.map_congr_left
    intro n hn
    simp [Int16.toInt_ofNat_of_lt (hns n hn)]
  have hvalue : ((Radix.value 10000 ns : ℕ) : ℚ) =
      Radix.value (10000 : ℚ) (ns.map (Nat.castRingHom ℚ)) := by
    rw [← eq_natCast (Nat.castRingHom ℚ), Radix.map_value, map_ofNat]
  rw [exactValue, hcast, Radix.weightedValue_eq (by norm_num), List.length_map, hvalue]

end Encoder

/-! ## Canonical numerics and the round trip -/

/-- `p` is the canonical numeric of the natural number `v`, the form Postgres stores: positive,
scale `0`, every digit in `0..=9999`, no digits for zero, no zero digit at either end, the
leading digit at weight `⌊log₁₀₀₀₀ v⌋` (so `0` for zero), and denoting `v`. -/
def IsCanonicalFor (p : PgNumeric) (v : ℕ) : Prop :=
  ∃ weight digits, p = .positive weight 0 digits ∧
    (∀ d ∈ digits, 0 ≤ d.toInt ∧ d.toInt ≤ 9999) ∧
    (digits = [] ↔ v = 0) ∧
    (∀ h : digits ≠ [], digits.head h ≠ 0 ∧ digits.getLast h ≠ 0) ∧
    weight.toInt = Nat.log 10000 v ∧
    exactValue weight digits = v

section RoundTrip

theorem lt_of_mem_keptDigits {v n : ℕ} (hn : n ∈ keptDigits v) : n < 10000 :=
  lt_of_mem_base10000Digits ((List.dropWhile_sublist _).subset hn)

theorem length_keptDigits_le (v : ℕ) : (keptDigits v).length ≤ (base10000Digits v).length :=
  (List.dropWhile_suffix _).length_le

theorem keptDigits_zero : keptDigits 0 = [] := rfl

/-- The leading digit of a non-zero value survives the stripping of low zeros. -/
theorem keptDigits_getLast {v : ℕ} (hv : v ≠ 0) :
    ∃ h : keptDigits v ≠ [], (keptDigits v).getLast h ≠ 0 := by
  have hL : base10000Digits v ≠ [] := by
    rw [base10000Digits_of_ne_zero hv]; exact Nat.digits_ne_nil_iff_ne_zero.mpr hv
  have hlast : (base10000Digits v).getLast hL ≠ 0 := by
    simp only [base10000Digits_of_ne_zero hv]
    exact Nat.getLast_digit_ne_zero 10000 hv
  obtain ⟨hne, heq⟩ := Radix.getLast_dropWhile hL hlast
  exact ⟨hne, heq ▸ hlast⟩

theorem keptDigits_eq_nil_iff {v : ℕ} : keptDigits v = [] ↔ v = 0 := by
  constructor
  · intro h
    by_contra hv
    obtain ⟨hne, -⟩ := keptDigits_getLast hv
    exact hne h
  · rintro rfl; rfl

theorem head_keptDigits_ne_zero {v : ℕ} (h : keptDigits v ≠ []) : (keptDigits v).head h ≠ 0 := by
  have := List.head_dropWhile_not (· == 0) h
  simpa [keptDigits] using this

/-- The kept digits times the dropped power of `10000` give the value back. -/
theorem value_keptDigits (v : ℕ) :
    Radix.value 10000 (keptDigits v).reverse *
      10000 ^ ((base10000Digits v).length - (keptDigits v).length) = v := by
  rw [Radix.value_eq_ofDigits, List.reverse_reverse, Nat.mul_comm]
  have key := Radix.ofDigits_eq_pow_mul_dropWhile 10000 (base10000Digits v)
  rw [ofDigits_base10000Digits] at key
  exact key.symm

/-- **The encoder's output is canonical.** -/
theorem isCanonicalFor_u128ToPgDecimal (value : Fin (2 ^ 128)) :
    IsCanonicalFor (u128ToPgDecimal value) value.val := by
  have hlen := length_base10000Digits value.val
  have hlen10 := length_base10000Digits_le value.isLt
  have hkept := length_keptDigits_le value.val
  have hsmall : ∀ n ∈ (keptDigits value.val).reverse, n < 2 ^ 15 := fun n hn => by
    have := lt_of_mem_keptDigits (List.mem_reverse.mp hn); omega
  refine ⟨_, _, u128ToPgDecimal_eq value, ?_, ?_, ?_, ?_, ?_⟩
  · -- every digit is an `i16` image of a digit below `10000`
    intro d hd
    obtain ⟨n, hn, rfl⟩ := List.mem_map.mp hd
    have h10 : n < 10000 := lt_of_mem_keptDigits (List.mem_reverse.mp hn)
    rw [Int16.toInt_ofNat_of_lt (by omega)]
    omega
  · rw [List.map_eq_nil_iff, List.reverse_eq_nil_iff]
    exact keptDigits_eq_nil_iff
  · intro hne
    have hne' : keptDigits value.val ≠ [] := by
      rwa [ne_eq, List.map_eq_nil_iff, List.reverse_eq_nil_iff] at hne
    have hv : value.val ≠ 0 := fun h0 => hne' (keptDigits_eq_nil_iff.mpr h0)
    obtain ⟨hne'', hlast⟩ := keptDigits_getLast hv
    have hhead := head_keptDigits_ne_zero hne'
    have hlast16 : (keptDigits value.val).getLast hne'' < 2 ^ 15 := by
      have := lt_of_mem_keptDigits (List.getLast_mem hne''); omega
    have hhead16 : (keptDigits value.val).head hne' < 2 ^ 15 := by
      have := lt_of_mem_keptDigits (List.head_mem hne'); omega
    simp only [List.head_map, List.getLast_map, List.head_reverse, List.getLast_reverse]
    exact ⟨(ofNat_eq_zero_iff hlast16).not.mpr hlast, (ofNat_eq_zero_iff hhead16).not.mpr hhead⟩
  · rw [toInt_weight (by omega) hlen10, hlen]
    push_cast
    ring
  · rw [exactValue_ofNat _ _ hsmall, toInt_weight (by omega) hlen10, List.length_reverse]
    have hexp : ((base10000Digits value.val).length : ℤ) - 1 - (keptDigits value.val).length + 1 =
        (((base10000Digits value.val).length - (keptDigits value.val).length : ℕ) : ℤ) := by
      omega
    rw [hexp, zpow_natCast]
    exact_mod_cast value_keptDigits value.val

/-- **Decoding the encoder's output gives the value back.**

**Proof sketch.** The encoder keeps the digits `M` of the value with its `z` low zeros dropped,
at weight `|M| + z - 1`; the decoder folds `M` back and multiplies by `10000^z`
(`pgDecimalToU128_positive`), which is the value (`value_keptDigits`). -/
theorem pgDecimalToU128_u128ToPgDecimal (value : Fin (2 ^ 128)) :
    pgDecimalToU128 (u128ToPgDecimal value) = .ok value := by
  have hlen10 := length_base10000Digits_le value.isLt
  have hlen1 : 1 ≤ (base10000Digits value.val).length := by
    rw [length_base10000Digits]; omega
  have hkept := length_keptDigits_le value.val
  have hw := toInt_weight hlen1 hlen10
  have hns : ∀ n ∈ (keptDigits value.val).reverse, n < 10000 := fun n hn =>
    lt_of_mem_keptDigits (List.mem_reverse.mp hn)
  have hk : ((Int16.ofNat (base10000Digits value.val).length - 1).toInt + 1 -
      (keptDigits value.val).reverse.length).toNat =
      (base10000Digits value.val).length - (keptDigits value.val).length := by
    rw [hw, List.length_reverse]; omega
  have hfit : Radix.value 10000 (keptDigits value.val).reverse * 10000 ^
      ((Int16.ofNat (base10000Digits value.val).length - 1).toInt + 1 -
        (keptDigits value.val).reverse.length).toNat < 2 ^ 128 := by
    rw [hk, value_keptDigits]; exact value.isLt
  rw [u128ToPgDecimal_eq, pgDecimalToU128_positive (by omega) hns
    (by rw [hw, List.length_reverse]; omega) hfit]
  congr 1
  ext
  simp only [hk, value_keptDigits]

/-- The kept digits of `value ns · 10000^k`, for digits `ns` (most significant first) with no
zero at either end, are `ns` least significant first. -/
theorem keptDigits_value_mul_pow {ns : List ℕ} (hns : ∀ n ∈ ns, n < 10000) (hne : ns ≠ [])
    (hhead : ns.head hne ≠ 0) (hlast : ns.getLast hne ≠ 0) (k : ℕ) :
    keptDigits (Radix.value 10000 ns * 10000 ^ k) = ns.reverse := by
  have hrev : ns.reverse ≠ [] := by simpa using hne
  have hdigits : Nat.digits 10000 (Radix.value 10000 ns) = ns.reverse := by
    rw [Radix.value_eq_ofDigits]
    refine Nat.digits_ofDigits 10000 (by norm_num) ns.reverse (fun n hn => hns n (by simpa using hn))
      (fun h => ?_)
    rw [List.getLast_reverse]; exact hhead
  have hpos : 0 < Radix.value 10000 ns := by
    rcases Nat.eq_zero_or_pos (Radix.value 10000 ns) with h0 | h
    · rw [h0, Nat.digits_zero] at hdigits; exact absurd hdigits.symm hrev
    · exact h
  have hv : Radix.value 10000 ns * 10000 ^ k ≠ 0 := by positivity
  have hall : Nat.digits 10000 (Radix.value 10000 ns * 10000 ^ k) =
      List.replicate k 0 ++ ns.reverse := by
    have key := Nat.digits_append_zeroes_append_digits (b := 10000) (k := k) (n := 0)
      (by norm_num) hpos
    simp only [Nat.digits_zero, List.nil_append, List.length_nil, zero_add] at key
    rw [← hdigits, key, Nat.mul_comm]
  rw [keptDigits, base10000Digits_of_ne_zero hv, hall,
    List.dropWhile_append_of_pos (fun a ha => by simp [(List.mem_replicate.mp ha).2])]
  obtain ⟨a, rest, hcons⟩ := List.exists_cons_of_ne_nil hrev
  have ha : a ≠ 0 := by
    have : ns.reverse.head hrev = a := by simp [hcons]
    rw [List.head_reverse] at this
    exact this ▸ hlast
  rw [hcons, List.dropWhile_cons_of_neg (by simpa using ha)]

/-- **A canonical numeric decodes, and encodes back to itself.** -/
theorem u128ToPgDecimal_of_isCanonicalFor {weight : Int16} {digits : List Int16} {v : ℕ}
    (hcan : IsCanonicalFor (.positive weight 0 digits) v)
    (hlen : (digits.length : ℤ) ≤ weight.toInt + 1) (hv : v < 2 ^ 128) :
    ∃ r : Fin (2 ^ 128), pgDecimalToU128 (.positive weight 0 digits) = .ok r ∧ r.val = v ∧
      u128ToPgDecimal r = .positive weight 0 digits := by
  obtain ⟨w', digits', heq, hrange, hnil, hends, hweight, hval⟩ := hcan
  simp only [PgNumeric.positive.injEq, true_and] at heq
  obtain ⟨rfl, rfl⟩ := heq
  -- the digits as naturals, most significant first
  set ns := digits.map fun d => d.toInt.toNat with hns_def
  have hds : ns.map Int16.ofNat = digits := by
    rw [hns_def, List.map_map]
    conv_rhs => rw [← List.map_id digits]
    exact List.map_congr_left fun d hd => ofNat_toNat_toInt (hrange d hd).1
  have hns : ∀ n ∈ ns, n < 10000 := fun n hn => by
    obtain ⟨d, hd, rfl⟩ := List.mem_map.mp hn
    have := hrange d hd; omega
  have hns16 : ∀ n ∈ ns, n < 2 ^ 15 := fun n hn => by have := hns n hn; omega
  have hlen' : ns.length = digits.length := List.length_map _
  have hw0 : 0 ≤ weight.toInt := by rw [hweight]; positivity
  set k := (weight.toInt + 1 - ns.length).toNat with hk
  -- the exact value is `value ns · 10000^k`
  have hvalue : Radix.value 10000 ns * 10000 ^ k = v := by
    rw [← hds, exactValue_ofNat _ _ hns16] at hval
    have hexp : weight.toInt - ns.length + 1 = (k : ℤ) := by omega
    rw [hexp, zpow_natCast] at hval
    exact_mod_cast hval
  have hfit : Radix.value 10000 ns * 10000 ^ k < 2 ^ 128 := hvalue ▸ hv
  refine ⟨⟨_, hfit⟩, ?_, hvalue, ?_⟩
  · rw [← hds, pgDecimalToU128_positive hw0 hns (by omega) hfit]
  · rw [u128ToPgDecimal_eq]
    simp only [hvalue]
    have hlen10 := length_base10000Digits_le hv
    have hweight' : Int16.ofNat (base10000Digits v).length - 1 = weight := by
      rw [← Int16.toInt_inj, toInt_weight (by rw [length_base10000Digits]; omega) hlen10,
        length_base10000Digits, hweight]
      push_cast; ring
    rw [hweight']
    by_cases hv0 : v = 0
    · have : digits = [] := hnil.mpr hv0
      subst this
      simp [hv0, keptDigits_zero]
    · have hne : digits ≠ [] := fun h => hv0 (hnil.mp h)
      have hnsne : ns ≠ [] := by simpa [hns_def] using hne
      obtain ⟨hhead, hlast⟩ := hends hne
      have hhead' : ns.head hnsne ≠ 0 := by
        simp only [hns_def, List.head_map]
        have := hrange _ (List.head_mem hne)
        intro h; apply hhead; rw [← ofNat_toNat_toInt this.1, h]; rfl
      have hlast' : ns.getLast hnsne ≠ 0 := by
        simp only [hns_def, List.getLast_map]
        have := hrange _ (List.getLast_mem hne)
        intro h; apply hlast; rw [← ofNat_toNat_toInt this.1, h]; rfl
      rw [← hvalue, keptDigits_value_mul_pow hns hnsne hhead' hlast', List.reverse_reverse, hds]

/-- **The `NUMERIC` codec round-trips.** Every `u128` encodes to its canonical numeric, which
decodes back to it; and every canonical numeric whose last digit has a non-negative weight and
whose value fits in a `u128` decodes to that value, which encodes back to the same numeric. -/
theorem pgDecimal_roundTrip :
    (∀ value : Fin (2 ^ 128), IsCanonicalFor (u128ToPgDecimal value) value.val ∧
        pgDecimalToU128 (u128ToPgDecimal value) = .ok value) ∧
    (∀ (weight : Int16) (digits : List Int16) (v : ℕ),
        IsCanonicalFor (.positive weight 0 digits) v → (digits.length : ℤ) - 1 ≤ weight.toInt →
        v ≤ 2 ^ 128 - 1 →
        ∃ r : Fin (2 ^ 128), pgDecimalToU128 (.positive weight 0 digits) = .ok r ∧ r.val = v ∧
          u128ToPgDecimal r = .positive weight 0 digits) :=
  ⟨fun value => ⟨isCanonicalFor_u128ToPgDecimal value, pgDecimalToU128_u128ToPgDecimal value⟩,
    fun _ _ _ hcan hlen hv => u128ToPgDecimal_of_isCanonicalFor hcan (by omega) (by omega)⟩

end RoundTrip

/-! ## The unchecked correction power -/

/-- **The correction power wraps.** `Positive { weight: 10, scale: 0, digits: [1] }` denotes
`10^40`, more than `u128::MAX`. Its correction exponent is `40`, `10u128.pow(40)` wraps, and the
decoder returns `10^40 mod 2^128` where it should fail. -/
theorem pgDecimalToU128_wraps :
    exactValue 10 [1] = 10 ^ 40 ∧ (2 : ℚ) ^ 128 ≤ 10 ^ 40 ∧
      pgDecimalToU128 (.positive 10 0 [1]) = .ok ⟨10 ^ 40 % 2 ^ 128, by norm_num⟩ := by
  refine ⟨?_, by norm_num, rfl⟩
  have h1 : (1 : Int16).toInt = 1 := rfl
  have h10 : (10 : Int16).toInt = 10 := rfl
  norm_num [exactValue, Radix.weightedValue, h1, h10]

end Keystore
