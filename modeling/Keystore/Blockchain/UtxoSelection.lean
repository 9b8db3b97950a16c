import Keystore.Blockchain.Bitcoin
import Keystore.Lib.Cover

/-!
# What `needed_utxos` selects

`BitcoinService::needed_utxos` sorts the utxos by value and walks them from the largest,
pushing each one and adding its value to a checked `u128` sum. The loop has no early exit,
so it selects every utxo: the selection is the whole list by descending value, or nothing
when even that does not reach the amount.

## Main definitions

* `Keystore.Blockchain.utxoWeight`, `Keystore.Blockchain.valueSum` — the value of a utxo and
  of a list of them, as numbers.
* `Keystore.Blockchain.sortedDesc` — the utxos in the order the loop visits them.

## Main results

* `Keystore.Blockchain.BitcoinService.neededUtxos_eq` — `needed_utxos` is an overflow error
  when the values sum to `2 ^ 128` or more, and otherwise every utxo, by descending value,
  when they cover the amount, and `None` when they do not.
* `Keystore.Blockchain.BitcoinService.neededUtxos_eq_shortestCover_iff` — it returns the
  shortest covering prefix of that order exactly when the amount is not covered or every
  utxo is needed to cover it.
* `Keystore.Blockchain.BitcoinService.neededUtxos_signFees` — on the utxos of
  `test_sign_fees` the code selects all three, where two already cover the amount.
-/

set_option autoImplicit false

namespace Keystore.Blockchain

/-- The value of a utxo, as a number. -/
def utxoWeight (utxo : Utxo) : ℕ := utxo.value.inner.val

/-- The total value of a list of utxos, as a number. -/
def valueSum (utxos : List Utxo) : ℕ := Cover.weight utxoWeight utxos

/-- The utxos by descending value: the stable sort by value, read backwards, as the loop of
`needed_utxos` reads them. -/
def sortedDesc (utxos : List Utxo) : List Utxo :=
  (utxos.mergeSort fun a b => a.value ≤ b.value).reverse

@[simp] theorem valueSum_nil : valueSum [] = 0 := rfl

@[simp] theorem valueSum_cons (utxo : Utxo) (utxos : List Utxo) :
    valueSum (utxo :: utxos) = utxo.value.inner.val + valueSum utxos := by
  simp [valueSum, utxoWeight]

theorem sortedDesc_perm (utxos : List Utxo) : (sortedDesc utxos).Perm utxos :=
  (List.reverse_perm _).trans (List.mergeSort_perm _ _)

/-- Sorting keeps the total. -/
theorem valueSum_sortedDesc (utxos : List Utxo) : valueSum (sortedDesc utxos) = valueSum utxos :=
  ((sortedDesc_perm utxos).map utxoWeight).sum_eq

theorem Amount.le_iff_val_le {a b : Amount} : a ≤ b ↔ a.inner.val ≤ b.inner.val := Iff.rfl

namespace BitcoinService

/-! ## The loop -/

/-- Without overflow, the loop pushes every utxo left and adds all their values. -/
theorem neededUtxosLoop_of_lt {res : List Utxo} {sum : Amount} {rest : List Utxo}
    (h : sum.inner.val + valueSum rest < 2 ^ 128) :
    ∃ total : Amount, total.inner.val = sum.inner.val + valueSum rest ∧
      neededUtxosLoop res sum rest = .ok (res ++ rest, total) := by
  induction rest generalizing res sum with
  | nil => exact ⟨sum, by simp, by simp [neededUtxosLoop]⟩
  | cons utxo rest ih =>
    simp only [valueSum_cons] at h
    have hstep : sum.inner.val + utxo.value.inner.val < 2 ^ 128 := by omega
    have hadd : sum.checkedAdd utxo.value = some ⟨⟨_, hstep⟩⟩ :=
      Amount.checkedAdd_eq_some.mpr ⟨hstep, rfl⟩
    obtain ⟨total, htotal, hloop⟩ := @ih (res ++ [utxo]) ⟨⟨_, hstep⟩⟩ (by simp only; omega)
    refine ⟨total, by simp only at htotal; simp only [valueSum_cons]; omega, ?_⟩
    rw [neededUtxosLoop, hadd]
    simpa using hloop

/-- Once the values left reach `2 ^ 128` with the sum so far, one of the checked additions
overflows. -/
theorem neededUtxosLoop_of_le {res : List Utxo} {sum : Amount} {rest : List Utxo}
    (h : 2 ^ 128 ≤ sum.inner.val + valueSum rest) :
    neededUtxosLoop res sum rest = .error ⟨.internal, some .overflow, none⟩ := by
  induction rest generalizing res sum with
  | nil =>
    have := sum.inner.isLt
    simp only [valueSum_nil] at h
    omega
  | cons utxo rest ih =>
    simp only [valueSum_cons] at h
    rw [neededUtxosLoop]
    -- the addition of this utxo overflows, or a later one does
    cases hadd : sum.checkedAdd utxo.value with
    | none => rfl
    | some sum' =>
      obtain ⟨-, hsum'⟩ := Amount.checkedAdd_eq_some.mp hadd
      exact ih (by omega)

/-! ## The selection -/

/-- **`needed_utxos`, in closed form.** An overflow error when the values reach `2 ^ 128`;
otherwise every utxo by descending value if they cover the amount, and `None` if not. -/
theorem neededUtxos_eq (utxos : List Utxo) (value : Amount) :
    neededUtxos utxos value =
      if valueSum utxos < 2 ^ 128 then
        .ok (if value.inner.val ≤ valueSum utxos then some (sortedDesc utxos) else none)
      else .error ⟨.internal, some .overflow, none⟩ := by
  have hzero : (Amount.new 0).inner.val = 0 := rfl
  -- the loop runs over `sortedDesc utxos`, from the sum `0`
  have hsorted : (utxos.mergeSort fun a b => a.value ≤ b.value).reverse = sortedDesc utxos := rfl
  rw [neededUtxos]
  simp only [hsorted]
  by_cases h : valueSum utxos < 2 ^ 128
  · obtain ⟨total, htotal, hloop⟩ := @neededUtxosLoop_of_lt [] (Amount.new 0) (sortedDesc utxos)
      (by rw [hzero, valueSum_sortedDesc]; omega)
    rw [hzero, valueSum_sortedDesc, Nat.zero_add] at htotal
    rw [hloop, if_pos h]
    show (if value ≤ total then pure (some ([] ++ sortedDesc utxos)) else pure none) = _
    simp only [Amount.le_iff_val_le, htotal, List.nil_append]
    split <;> rfl
  · have hle : 2 ^ 128 ≤ (Amount.new 0).inner.val + valueSum (sortedDesc utxos) := by
      rw [hzero, valueSum_sortedDesc]; omega
    rw [neededUtxosLoop_of_le hle, if_neg h]
    rfl

/-- **`needed_utxos` agrees with the shortest covering prefix only when the smallest utxo
is needed.** Without overflow, it returns the shortest prefix of the descending order that
covers the amount exactly when no prefix covers it, or the whole order is the shortest one.

**Proof sketch.** By `neededUtxos_eq` the code returns the whole order or `None`; the
shortest cover is `None` under the same condition (`Cover.shortestCover_eq_none_iff`), and
otherwise it is the whole order only when dropping the last, smallest, utxo falls short
(`Cover.shortestCover_eq_self_iff`). -/
theorem neededUtxos_eq_shortestCover_iff {utxos : List Utxo} {value : Amount}
    (h : valueSum utxos < 2 ^ 128) (hne : utxos ≠ []) :
    neededUtxos utxos value =
        .ok (Cover.shortestCover utxoWeight value.inner.val (sortedDesc utxos)) ↔
      valueSum utxos < value.inner.val ∨
        valueSum (sortedDesc utxos).dropLast < value.inner.val := by
  have hsorted : sortedDesc utxos ≠ [] := by
    intro hnil
    exact hne (List.eq_nil_of_length_eq_zero
      (by rw [← (sortedDesc_perm utxos).length_eq, hnil, List.length_nil]))
  rw [neededUtxos_eq, if_pos h, Except.ok.injEq]
  by_cases hcov : value.inner.val ≤ valueSum utxos
  · -- the code returns the whole order; so must the shortest cover
    rw [if_pos hcov, eq_comm, Cover.shortestCover_eq_self_iff _ hsorted]
    change value.inner.val ≤ valueSum (sortedDesc utxos) ∧
      valueSum (sortedDesc utxos).dropLast < value.inner.val ↔ _
    rw [valueSum_sortedDesc]
    omega
  · -- neither covers
    have hnone : Cover.shortestCover utxoWeight value.inner.val (sortedDesc utxos) = none :=
      (Cover.shortestCover_eq_none_iff _).mpr (by
        rw [← valueSum, valueSum_sortedDesc]; omega)
    rw [if_neg hcov, hnone]
    simp only [true_iff]
    omega

/-! ## `test_sign_fees` -/

/-- The utxos of `test_sign_fees`. -/
def signFeesUtxos : List Utxo :=
  [⟨"9e87538bdc1b83688af82fedb524ca647f102bef6c5b3a09774b5637e7702cc2", Amount.new 336474, 1⟩,
   ⟨"1ef46531bf5da3d49be1458ff855094339ba6ff0e8812be27e4a6b7328d0acaa", Amount.new 335456, 1⟩,
   ⟨"f8cb4a89b5197b4f53c64d75cc93724a925bfa1c7918e5a2468d24a8c0329e2e", Amount.new 125483, 1⟩]

/-- The utxos of `test_sign_fees` are already by descending value. -/
theorem sortedDesc_signFeesUtxos : sortedDesc signFeesUtxos = signFeesUtxos := by
  simp [sortedDesc, signFeesUtxos, List.mergeSort, Amount.new, Amount.le_iff_val_le]

/-- **`needed_utxos` is not the shortest cover on `test_sign_fees`.** For the amount
`580520` the first two utxos (`336474 + 335456 = 671930`) already cover it, so the code, which
selects all three, does not return the shortest covering prefix. -/
theorem neededUtxos_signFees :
    valueSum signFeesUtxos < 2 ^ 128 ∧ signFeesUtxos ≠ [] ∧
      neededUtxos signFeesUtxos (Amount.new 580520) ≠
        .ok (Cover.shortestCover utxoWeight (Amount.new 580520).inner.val
          (sortedDesc signFeesUtxos)) := by
  have hsum : valueSum signFeesUtxos < 2 ^ 128 := by
    simp [signFeesUtxos, valueSum, utxoWeight, Amount.new]
  have hne : signFeesUtxos ≠ [] := by simp [signFeesUtxos]
  refine ⟨hsum, hne, fun heq => ?_⟩
  -- neither side of the condition holds: the utxos cover the amount without the smallest
  have hcond := (neededUtxos_eq_shortestCover_iff hsum hne).mp heq
  rw [sortedDesc_signFeesUtxos] at hcond
  simp [signFeesUtxos, valueSum, utxoWeight, Amount.new] at hcond

end BitcoinService

end Keystore.Blockchain
