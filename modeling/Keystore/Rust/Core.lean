import Mathlib.Tactic.Positivity
import Mathlib.Tactic.IntervalCases
import Mathlib.Data.Nat.Basic

/-!
# The parts of Rust's core library the keystore relies on

Rust's integer and string primitives, modelled from their documented behaviour, in the form
the keystore's code uses them. An unsigned integer of `w` bits is a `Fin (2 ^ w)` or one of
Lean's `UInt8`, `UInt32`, `UInt64`; a signed one is Lean's `Int16` or `Int32`, whose operations
wrap exactly like Rust's in a release build (overflow checks off). A `String` is Lean's
`String`; its bytes (`as_bytes`) are the UTF-8 encodings of its characters.

## Main definitions

* `Rust.FloatCasts` — the `f64` computations, as parameters.
* `Rust.checkedAdd`, `Rust.checkedMul` — `checked_add`, `checked_mul`: `none` on overflow.
* `Rust.wrappingPow` — `pow` in a release build: the power modulo `2 ^ w`.
* `Rust.asUnsigned` — the `as` cast of a signed value into a `w`-bit unsigned type.
* `Rust.toDigit`, `Rust.u8FromStrRadix` — `char::to_digit` and `u8::from_str_radix`.
* `Rust.lowerHex02` — `format!("{:02x}", byte)`.
* `Rust.asBytes`, `Rust.strSlice`, `Rust.strSliceFrom` — `str::as_bytes` and the byte-range
  slices `&s[lo..hi]`, `&s[lo..]`, which panic (`none`) off a character boundary.
* `Rust.chunks2` — `slice::chunks(2)`.
* `Rust.sliceArray` — `copy_from_slice` of a sub-slice into a fixed-size array.

## Main results

* `Rust.u8FromStrRadix_pair` — on two bytes in radix 16, `u8::from_str_radix` accepts two hex
  digits, and also a `+` followed by one hex digit.
* `Rust.hexDigit_lowerHex02` — the two characters of `{:02x}` read back as the byte.
-/

set_option autoImplicit false

namespace Rust

/-! ## Floating point -/

/-- The `f64` computations of the keystore, as parameters: `mulToU64 x n` is
`(x * n as f64) as u64` and `toU128 x` is `x as u128`. Lean's `Float` implements the IEEE-754
operations, but the kernel cannot evaluate them, and nothing proved here depends on how they
round. -/
structure FloatCasts where
  mulToU64 : Float → UInt64 → UInt64
  toU128 : Float → Fin (2 ^ 128)

/-- Casts that return `0`: the model can be run with them. -/
def FloatCasts.zero : FloatCasts := ⟨fun _ _ => 0, fun _ => 0⟩

/-! ## The `?` operator -/

/-- `?` on a `Result`: a computation that returned `Ok` got `Ok` from the call it applied
`?` to. -/
@[simp] theorem bind_eq_ok {ε α β : Type} {x : Except ε α} {f : α → Except ε β} {b : β} :
    x >>= f = .ok b ↔ ∃ a, x = .ok a ∧ f a = .ok b := by
  cases x <;> simp [bind, Except.bind]

/-- `?` on a `Result` that has mapped its error first. -/
@[simp] theorem mapError_eq_ok {ε ε' α : Type} {f : ε → ε'} {x : Except ε α} {a : α} :
    x.mapError f = .ok a ↔ x = .ok a := by
  cases x <;> simp [Except.mapError]

/-- `map(f).collect::<Result<Vec<_>, _>>()` returned `Ok` exactly when `f` returned `Ok` on
each element, the results in order. -/
theorem mapM_eq_ok_iff {ε α β : Type} {f : α → Except ε β} {xs : List α} {ys : List β} :
    xs.mapM f = .ok ys ↔ List.Forall₂ (fun x y => f x = .ok y) xs ys := by
  induction xs generalizing ys with
  | nil =>
    cases ys <;> simp [pure, Except.pure]
  | cons x xs ih =>
    rw [List.mapM_cons]
    cases ys with
    | nil => simp [pure, Except.pure, bind_eq_ok]
    | cons y ys =>
      simp only [bind_eq_ok, List.forall₂_cons, ← ih]
      constructor
      · rintro ⟨y', hy', ys', hys', h⟩
        cases h
        exact ⟨hy', hys'⟩
      · rintro ⟨hy, hys⟩
        exact ⟨y, hy, ys, hys, rfl⟩

/-! ### Results of code that may panic

A function that returns a `Result` and may panic is an `ExceptT ε Option`: a run that is
`none` panicked. A run that returned `Ok` returned `Ok` at each `?`, did not panic at any
call, and took no branch that returns an error. -/

section Panics

variable {ε α β : Type}

theorem run_bind_eq_ok {x : ExceptT ε Option α} {f : α → ExceptT ε Option β} {b : β} :
    (x >>= f).run = some (.ok b) ↔ ∃ a, x.run = some (.ok a) ∧ (f a).run = some (.ok b) := by
  rw [ExceptT.run_bind]
  rcases hx : x.run with _ | _ | a <;> simp

@[simp] theorem run_liftExcept_eq_ok (e : Except ε α) (a : α) :
    (monadLift e : ExceptT ε Option α).run = some (.ok a) ↔ e = .ok a := by
  cases e <;> simp [monadLift, MonadLift.monadLift]

@[simp] theorem run_liftOption_eq_ok (e : Option α) (a : α) :
    (monadLift e : ExceptT ε Option α).run = some (.ok a) ↔ e = some a := by
  cases e <;> simp [monadLift, MonadLift.monadLift, ExceptT.lift, ExceptT.mk, ExceptT.run]

@[simp] theorem run_throw_eq_ok (e : ε) (a : α) :
    (throw e : ExceptT ε Option α).run = some (.ok a) ↔ False := by
  simp [throw, throwThe, MonadExceptOf.throw, ExceptT.mk, ExceptT.run]

@[simp] theorem run_pure_eq_ok (x a : α) :
    (pure x : ExceptT ε Option α).run = some (.ok a) ↔ x = a := by
  simp [pure, ExceptT.pure, ExceptT.mk, ExceptT.run]

theorem run_bind_of_ok {x : ExceptT ε Option α} {a : α} (hx : x.run = some (.ok a))
    (f : α → ExceptT ε Option β) : (x >>= f).run = (f a).run := by
  rw [ExceptT.run_bind, hx]
  rfl

@[simp] theorem run_liftExcept (e : Except ε α) :
    (monadLift e : ExceptT ε Option α).run = some e := rfl

@[simp] theorem run_liftOption_some (a : α) :
    (monadLift (some a) : ExceptT ε Option α).run = some (.ok a) := rfl

@[simp] theorem run_pure (a : α) : (pure a : ExceptT ε Option α).run = some (.ok a) := rfl

@[simp] theorem run_adapt_eq_ok {ε' : Type} (f : ε → ε') (x : ExceptT ε Option α) (a : α) :
    (ExceptT.adapt f x : ExceptT ε' Option α).run = some (.ok a) ↔ x.run = some (.ok a) := by
  rw [ExceptT.run_adapt]
  rcases x.run with _ | _ | b <;> simp [Except.mapError]

@[simp] theorem liftExcept_ok_bind (a : α) (f : α → ExceptT ε Option β) :
    (monadLift (Except.ok a : Except ε α) : ExceptT ε Option α) >>= f = f a := rfl

@[simp] theorem liftOption_some_bind (a : α) (f : α → ExceptT ε Option β) :
    (monadLift (some a) : ExceptT ε Option α) >>= f = f a := rfl

/-- A computation that returned `Ok` is, with its errors mapped, the value it returned. -/
theorem adapt_eq_pure {ε' : Type} (f : ε → ε') {x : ExceptT ε Option α} {a : α}
    (hx : x.run = some (.ok a)) : (ExceptT.adapt f x : ExceptT ε' Option α) = pure a := by
  apply ExceptT.ext
  rw [ExceptT.run_adapt, hx]
  rfl

end Panics

/-! ## Checked and wrapping arithmetic -/

/-- `checked_add` of unsigned integers with `n` values: `none` when the sum overflows. -/
def checkedAdd {n : ℕ} (a b : Fin n) : Option (Fin n) :=
  if h : a.val + b.val < n then some ⟨a.val + b.val, h⟩ else none

/-- `checked_mul` of unsigned integers with `n` values: `none` when the product overflows. -/
def checkedMul {n : ℕ} (a b : Fin n) : Option (Fin n) :=
  if h : a.val * b.val < n then some ⟨a.val * b.val, h⟩ else none

theorem checkedAdd_eq_some {n : ℕ} {a b c : Fin n} :
    checkedAdd a b = some c ↔ a.val + b.val < n ∧ c.val = a.val + b.val := by
  unfold checkedAdd
  split
  · simp only [Option.some.injEq, Fin.ext_iff]
    constructor
    · rintro h; exact ⟨‹_›, h.symm⟩
    · rintro ⟨-, h⟩; exact h.symm
  · simp only [reduceCtorEq, false_iff, not_and]
    intro h; exact absurd h ‹_›

theorem checkedAdd_eq_none {n : ℕ} {a b : Fin n} :
    checkedAdd a b = none ↔ n ≤ a.val + b.val := by
  unfold checkedAdd
  split
  · simp only [reduceCtorEq, false_iff, not_le]; assumption
  · simp only [true_iff]; exact Nat.le_of_not_lt ‹_›

theorem checkedMul_eq_some {n : ℕ} {a b c : Fin n} :
    checkedMul a b = some c ↔ a.val * b.val < n ∧ c.val = a.val * b.val := by
  unfold checkedMul
  split
  · simp only [Option.some.injEq, Fin.ext_iff]
    constructor
    · rintro h; exact ⟨‹_›, h.symm⟩
    · rintro ⟨-, h⟩; exact h.symm
  · simp only [reduceCtorEq, false_iff, not_and]
    intro h; exact absurd h ‹_›

/-- `pow` of a `w`-bit unsigned integer in a release build. With overflow checks off the
squaring loop wraps every product, so the result is the power modulo `2 ^ w`. -/
def wrappingPow {w : ℕ} (a : Fin (2 ^ w)) (e : ℕ) : Fin (2 ^ w) :=
  ⟨a.val ^ e % 2 ^ w, Nat.mod_lt _ (Nat.two_pow_pos w)⟩

theorem wrappingPow_val {w : ℕ} (a : Fin (2 ^ w)) (e : ℕ) :
    (wrappingPow a e).val = a.val ^ e % 2 ^ w := rfl

/-- The `as` cast of a signed value into a `w`-bit unsigned type: two's complement, so the
value modulo `2 ^ w`. -/
def asUnsigned (w : ℕ) (x : ℤ) : Fin (2 ^ w) :=
  ⟨(x % 2 ^ w).toNat, by
    have hpos : (0 : ℤ) < 2 ^ w := by positivity
    rw [Int.toNat_lt' (Nat.two_pow_pos w)]
    exact_mod_cast Int.emod_lt_of_pos x hpos⟩

theorem asUnsigned_of_nonneg {w : ℕ} {x : ℤ} (h0 : 0 ≤ x) (hx : x < 2 ^ w) :
    (asUnsigned w x).val = x.toNat := by
  simp only [asUnsigned, Int.emod_eq_of_lt h0 hx]

/-! ## Digits: `char::to_digit` and `u8::from_str_radix` -/

/-- `char::to_digit`: the value of `c` as a digit in `radix` (at most `36`), if it is one. -/
def toDigit (c : Char) (radix : ℕ) : Option ℕ :=
  let val : Option ℕ :=
    if '0' ≤ c ∧ c ≤ '9' then some (c.toNat - '0'.toNat)
    else if 'a' ≤ c ∧ c ≤ 'z' then some (c.toNat - 'a'.toNat + 10)
    else if 'A' ≤ c ∧ c ≤ 'Z' then some (c.toNat - 'A'.toNat + 10)
    else none
  val.filter (fun v => decide (v < radix))

theorem lt_of_toDigit_eq_some {c : Char} {radix x : ℕ} (h : toDigit c radix = some x) :
    x < radix := by
  unfold toDigit at h
  obtain ⟨-, hx⟩ := Option.filter_eq_some_iff.mp h
  simpa using hx

/-- The ways `from_str_radix` fails. -/
inductive IntErrorKind
  | empty
  | invalidDigit
  | overflow
  deriving DecidableEq, Repr

/-- The digit loop of `from_str_radix` for a positive `u8`: `result = result * radix + x` for
each byte, read as the character with that code; the product and the sum are both checked. -/
def accumulateDigits (radix : ℕ) : ℕ → List UInt8 → Except IntErrorKind ℕ
  | result, [] => .ok result
  | result, c :: cs =>
    match toDigit (Char.ofNat c.toNat) radix with
    | none => .error .invalidDigit
    | some x =>
      if result * radix < 256 then
        if result * radix + x < 256 then accumulateDigits radix (result * radix + x) cs
        else .error .overflow
      else .error .overflow

/-- `u8::from_str_radix`. A leading `+` is dropped (a `-` only for signed types, so for `u8` it
is an invalid digit); what is left must be a non-empty run of digits whose value fits. -/
def u8FromStrRadix (src : List UInt8) (radix : ℕ) : Except IntErrorKind UInt8 :=
  match src with
  | [] => .error .empty
  | c :: rest =>
    let digits := if c = 43 then rest else c :: rest
    if digits = [] then .error .empty
    else (accumulateDigits radix 0 digits).map UInt8.ofNat

/-- The value of a byte read as a hex digit, as `from_str_radix` reads it in radix 16. -/
def hexValue (b : UInt8) : Option ℕ := toDigit (Char.ofNat b.toNat) 16

/-- **`from_str_radix` on two bytes in radix 16.** A `+` followed by one hex digit is accepted
as that digit; otherwise both bytes must be hex digits.

**Proof sketch.** Unfold the sign handling, then run the digit loop once or twice; the digit
values are below `16`, so no checked operation overflows. -/
theorem u8FromStrRadix_pair (a b : UInt8) :
    u8FromStrRadix [a, b] 16 =
      if a = 43 then
        (match hexValue b with
          | some y => .ok (UInt8.ofNat y)
          | none => .error .invalidDigit)
      else
        (match hexValue a, hexValue b with
          | some x, some y => .ok (UInt8.ofNat (16 * x + y))
          | some _, none => .error .invalidDigit
          | none, _ => .error .invalidDigit) := by
  unfold u8FromStrRadix hexValue
  by_cases ha : a = 43
  · rcases hb : toDigit (Char.ofNat b.toNat) 16 with _ | y
    · simp [ha, accumulateDigits, hb, Except.map]
    · have hy : y < 16 := lt_of_toDigit_eq_some hb
      simp [ha, accumulateDigits, hb, Except.map, show y < 256 by omega]
  · rcases hA : toDigit (Char.ofNat a.toNat) 16 with _ | x
    · simp [ha, accumulateDigits, hA, Except.map]
    · have hx : x < 16 := lt_of_toDigit_eq_some hA
      rcases hb : toDigit (Char.ofNat b.toNat) 16 with _ | y
      · simp [ha, accumulateDigits, hA, hb, show x < 256 by omega, Except.map]
      · have hy : y < 16 := lt_of_toDigit_eq_some hb
        simp [ha, accumulateDigits, hA, hb, show x < 256 by omega,
          show x * 16 < 256 by omega, show x * 16 + y < 256 by omega, Except.map, Nat.mul_comm]

/-! ## Formatting a byte as hex -/

/-- The lowercase hex digit `d < 16`, as `{:x}` writes it. -/
def hexDigitChar (d : ℕ) : Char :=
  if d < 10 then Char.ofNat (48 + d) else Char.ofNat (87 + d)

/-- `format!("{:02x}", byte)`: the byte in lowercase hex, padded with `0` to two digits. -/
def lowerHex02 (b : UInt8) : String :=
  String.ofList [hexDigitChar (b.toNat / 16), hexDigitChar (b.toNat % 16)]

/-- The ASCII byte of the hex digit `d`. -/
def hexDigitByte (d : ℕ) : UInt8 := (hexDigitChar d).val.toUInt8

section HexDigit

variable {d : ℕ}

theorem hexDigitChar_utf8Size (hd : d < 16) : (hexDigitChar d).utf8Size = 1 := by
  interval_cases d <;> decide

theorem utf8EncodeChar_hexDigitChar (hd : d < 16) :
    String.utf8EncodeChar (hexDigitChar d) = [hexDigitByte d] :=
  String.utf8EncodeChar_eq_singleton (hexDigitChar_utf8Size hd)

/-- A hex digit's byte, read back as a character (`u8 as char`), is the digit. -/
theorem ofNat_hexDigitByte (hd : d < 16) : Char.ofNat (hexDigitByte d).toNat = hexDigitChar d := by
  interval_cases d <;> decide

theorem hexValue_hexDigitByte (hd : d < 16) : hexValue (hexDigitByte d) = some d := by
  interval_cases d <;> decide

theorem hexDigitByte_ne_plus (hd : d < 16) : hexDigitByte d ≠ 43 := by
  interval_cases d <;> decide

end HexDigit

/-- **`{:02x}` reads back.** The two digit bytes of a byte, parsed by `u8::from_str_radix` in
radix 16, give the byte. -/
theorem u8FromStrRadix_hexDigitBytes (x : UInt8) :
    u8FromStrRadix [hexDigitByte (x.toNat / 16), hexDigitByte (x.toNat % 16)] 16 = .ok x := by
  have hhi : x.toNat / 16 < 16 := by have := x.toNat_lt; omega
  have hlo : x.toNat % 16 < 16 := Nat.mod_lt _ (by norm_num)
  rw [u8FromStrRadix_pair, if_neg (hexDigitByte_ne_plus hhi), hexValue_hexDigitByte hhi,
    hexValue_hexDigitByte hlo]
  simp only [Except.ok.injEq]
  rw [Nat.div_add_mod, UInt8.ofNat_toNat]

/-! ## Strings as bytes -/

/-- `str::as_bytes`: the UTF-8 encoding of the string's characters. -/
def asBytes (s : String) : List UInt8 := s.toList.flatMap String.utf8EncodeChar

/-- The characters lying wholly within the first `i` bytes of the encoding. -/
def takeBytes : List Char → ℕ → List Char
  | [], _ => []
  | c :: cs, i => if c.utf8Size ≤ i then c :: takeBytes cs (i - c.utf8Size) else []

/-- The characters from byte offset `i` on. -/
def dropBytes : List Char → ℕ → List Char
  | [], _ => []
  | c :: cs, i => if c.utf8Size ≤ i then dropBytes cs (i - c.utf8Size) else c :: cs

/-- `str::is_char_boundary`: `i` is `0`, the byte length, or the offset of a character. -/
def isCharBoundary : List Char → ℕ → Bool
  | _, 0 => true
  | [], _ + 1 => false
  | c :: cs, i + 1 => c.utf8Size ≤ i + 1 && isCharBoundary cs (i + 1 - c.utf8Size)

@[simp] theorem isCharBoundary_zero (l : List Char) : isCharBoundary l 0 = true := by
  cases l <;> rfl

/-- `&s[lo..hi]`, which panics (`none`) unless `lo ≤ hi` and both are character boundaries. -/
def strSlice (s : String) (lo hi : ℕ) : Option String :=
  if lo ≤ hi ∧ isCharBoundary s.toList lo ∧ isCharBoundary s.toList hi then
    some (String.ofList (dropBytes (takeBytes s.toList hi) lo))
  else none

/-- `&s[lo..]`, which panics (`none`) unless `lo` is a character boundary. -/
def strSliceFrom (s : String) (lo : ℕ) : Option String :=
  if isCharBoundary s.toList lo then some (String.ofList (dropBytes s.toList lo)) else none

section Ascii

/-! ### ASCII strings

On characters of one byte each, byte offsets are character offsets. -/

variable {l : List Char}

theorem takeBytes_of_ascii (hl : ∀ c ∈ l, c.utf8Size = 1) (i : ℕ) :
    takeBytes l i = l.take i := by
  induction l generalizing i with
  | nil => simp [takeBytes]
  | cons c cs ih =>
    have hc : c.utf8Size = 1 := hl c (by simp)
    rcases i with _ | i
    · simp [takeBytes, hc]
    · simp [takeBytes, hc, ih (fun d hd => hl d (by simp [hd]))]

theorem dropBytes_of_ascii (hl : ∀ c ∈ l, c.utf8Size = 1) (i : ℕ) :
    dropBytes l i = l.drop i := by
  induction l generalizing i with
  | nil => simp [dropBytes]
  | cons c cs ih =>
    have hc : c.utf8Size = 1 := hl c (by simp)
    rcases i with _ | i
    · simp [dropBytes, hc]
    · simp [dropBytes, hc, ih (fun d hd => hl d (by simp [hd]))]

theorem isCharBoundary_of_ascii (hl : ∀ c ∈ l, c.utf8Size = 1) (i : ℕ) :
    isCharBoundary l i = decide (i ≤ l.length) := by
  induction l generalizing i with
  | nil => rcases i with _ | i <;> simp [isCharBoundary]
  | cons c cs ih =>
    have hc : c.utf8Size = 1 := hl c (by simp)
    rcases i with _ | i
    · simp [isCharBoundary]
    · simp [isCharBoundary, hc, ih (fun d hd => hl d (by simp [hd]))]

/-- Slicing an ASCII string `&s[0..n]` at the length `n` of an ASCII prefix returns the
prefix. -/
theorem strSlice_append_of_ascii {a b : String} (ha : ∀ c ∈ a.toList, c.utf8Size = 1)
    (hb : ∀ c ∈ b.toList, c.utf8Size = 1) : strSlice (a ++ b) 0 a.length = some a := by
  have hab : ∀ c ∈ (a ++ b).toList, c.utf8Size = 1 := by
    simp only [String.toList_append, List.mem_append]
    rintro c (hc | hc)
    exacts [ha c hc, hb c hc]
  have hlen : a.length ≤ (a ++ b).toList.length := by
    simp [String.toList_append, ← String.length_toList]
  have hend : isCharBoundary (a ++ b).toList a.length = true := by
    rw [isCharBoundary_of_ascii hab]
    exact decide_eq_true hlen
  have htake : takeBytes (a ++ b).toList a.length = a.toList := by
    rw [takeBytes_of_ascii hab, String.toList_append, ← String.length_toList, List.take_left]
  rw [strSlice, if_pos ⟨Nat.zero_le _, isCharBoundary_zero _, hend⟩, htake, dropBytes_of_ascii ha, List.drop_zero,
    String.ofList_toList]

/-- Slicing an ASCII string `&s[n..]` at the length `n` of an ASCII prefix returns the rest. -/
theorem strSliceFrom_append_of_ascii {a b : String} (ha : ∀ c ∈ a.toList, c.utf8Size = 1)
    (hb : ∀ c ∈ b.toList, c.utf8Size = 1) : strSliceFrom (a ++ b) a.length = some b := by
  have hab : ∀ c ∈ (a ++ b).toList, c.utf8Size = 1 := by
    simp only [String.toList_append, List.mem_append]
    rintro c (hc | hc)
    exacts [ha c hc, hb c hc]
  have hlen : a.length ≤ (a ++ b).toList.length := by
    simp [String.toList_append, ← String.length_toList]
  have hend : isCharBoundary (a ++ b).toList a.length = true := by
    rw [isCharBoundary_of_ascii hab]
    exact decide_eq_true hlen
  have hdrop : dropBytes (a ++ b).toList a.length = b.toList := by
    rw [dropBytes_of_ascii hab, String.toList_append, ← String.length_toList, List.drop_left]
  rw [strSliceFrom, if_pos hend, hdrop, String.ofList_toList]

end Ascii

/-- `slice::chunks(2)`: consecutive pairs; when the length is odd the last chunk is a single
element. -/
def chunks2 {α : Type*} : List α → List (List α)
  | [] => []
  | [a] => [[a]]
  | a :: b :: rest => [a, b] :: chunks2 rest

/-- Chunking a list laid out two elements per entry recovers the pairs. -/
theorem chunks2_flatMap_pair {α β : Type*} (f g : α → β) (l : List α) :
    chunks2 (l.flatMap (fun x => [f x, g x])) = l.map (fun x => [f x, g x]) := by
  induction l with
  | nil => rfl
  | cons x xs ih => simp [chunks2, ih]

/-- `array.copy_from_slice(&data[start..start + n])` into an `n`-element array, with the range
inside the slice (the source panics otherwise). -/
def sliceArray {α : Type*} (data : List α) (start n : ℕ) (h : start + n ≤ data.length) :
    Vector α n :=
  ⟨((data.drop start).take n).toArray, by simp; omega⟩

@[simp] theorem toList_sliceArray {α : Type*} (data : List α) (start n : ℕ)
    (h : start + n ≤ data.length) : (sliceArray data start n h).toList = (data.drop start).take n :=
  rfl

/-- Copying the array that follows one element reads the array back. -/
@[simp] theorem sliceArray_cons_append {α : Type*} (a : α) {n : ℕ} (v : Vector α n)
    (rest : List α) (h : 1 + n ≤ (a :: (v.toList ++ rest)).length) :
    sliceArray (a :: (v.toList ++ rest)) 1 n h = v := by
  apply Vector.toList_inj.mp
  simp

end Rust
