import Mathlib.Data.Nat.Notation

/-!
# Buffered streaming transformers

A streaming transformer (a block-cipher mode, a compressor, a codec) is driven by a loop
that hands it the unread input and an emptied output buffer, appends what it wrote to the
result, and stops once the transformer reports that it ran out of input rather than that
the output buffer filled up.

## Main definitions

* `Buffered.BufferResult` — why one call returned.
* `Buffered.Transformer` — one call, with a measure that every call filling the buffer
  decreases, so that the driving loop terminates.
* `Buffered.Transformer.drain` — the driving loop.
* `Buffered.Transformer.Computes` — the transformer streams a whole-message function: a
  call that fills the buffer wrote a prefix of what is left to write, a call that empties
  the input wrote all of it, and an error of a call is the error of the whole message.
* `Buffered.Transformer.oneShot` — a whole-message function as a transformer of one call.

## Main results

* `Buffered.Transformer.drain_eq_of_computes` — the loop returns the whole-message result
  after what it has already collected, whatever the buffer size made the calls return.

## Design

The transformer's state, the unread input and the bytes written are explicit; the size of
the output buffer is part of the transformer, which returns at most that many bytes per
call. The loop is defined by well-founded recursion on the transformer's own measure,
as the loop of the source has no bound of its own.
-/

set_option autoImplicit false

namespace Buffered

/-- Why a call of a streaming transformer returned: the input ran out (`bufferUnderflow`),
or the output buffer filled up (`bufferOverflow`). -/
inductive BufferResult
  | bufferUnderflow
  | bufferOverflow
  deriving DecidableEq, Repr

/-- A streaming transformer from `α`s to `β`s with state `σ` and errors `ε`. A call takes the
state and the unread input and returns the new state, the input still unread, the output it
wrote and why it returned. Every call that returns because the buffer filled decreases
`measure`. -/
structure Transformer (σ α β ε : Type) where
  step : σ → List α → Except ε (σ × List α × List β × BufferResult)
  measure : σ → List α → ℕ
  measure_lt : ∀ {s : σ} {input : List α} {s' : σ} {input' : List α} {out : List β},
    step s input = .ok (s', input', out, .bufferOverflow) → measure s' input' < measure s input

namespace Transformer

variable {σ α β ε : Type} (t : Transformer σ α β ε)

/-- The driving loop: call the transformer, append what it wrote to `acc`, and go on until
it reports that the input ran out; the first error of a call is the result. -/
def drain (s : σ) (input : List α) (acc : List β) : Except ε (List β) :=
  match h : t.step s input with
  | .error e => .error e
  | .ok (_, _, out, .bufferUnderflow) => .ok (acc ++ out)
  | .ok (s', input', out, .bufferOverflow) => drain s' input' (acc ++ out)
termination_by t.measure s input
decreasing_by exact t.measure_lt h

/-- The transformer streams the whole-message function `f`: `f s input` is what all further
calls from state `s` on input `input` write, or the error that one of them returns. -/
structure Computes (f : σ → List α → Except ε (List β)) : Prop where
  error : ∀ {s : σ} {input : List α} {e : ε}, t.step s input = .error e → f s input = .error e
  underflow : ∀ {s : σ} {input : List α} {s' : σ} {input' : List α} {out : List β},
    t.step s input = .ok (s', input', out, .bufferUnderflow) → f s input = .ok out
  overflow : ∀ {s : σ} {input : List α} {s' : σ} {input' : List α} {out : List β},
    t.step s input = .ok (s', input', out, .bufferOverflow) →
      f s input = (f s' input').map (out ++ ·)

/-- The transformer that writes all of `f`'s output in one call, with a buffer large enough
for any message. -/
def oneShot (f : σ → List α → Except ε (List β)) : Transformer σ α β ε where
  step s input := (f s input).map fun out => (s, [], out, .bufferUnderflow)
  measure _ _ := 0
  measure_lt {s input _ _ _} h := by
    cases hf : f s input <;> simp [hf, Except.map] at h

theorem oneShot_computes (f : σ → List α → Except ε (List β)) : (oneShot f).Computes f where
  error {s input _} h := by
    cases hf : f s input <;> simp [oneShot, hf, Except.map] at h ⊢
    exact h
  underflow {s input _ _ _} h := by
    cases hf : f s input <;> simp [oneShot, hf, Except.map] at h ⊢
    exact h.2.2
  overflow {s input _ _ _} h := by
    cases hf : f s input <;> simp [oneShot, hf, Except.map] at h

variable {t}

/-- **The loop computes the whole-message function.** Whatever the buffer size makes each
call return, the loop collects exactly what `f` says is left to write.

**Proof sketch.** Induction along the loop's own recursion; each of its three cases is the
matching clause of `Computes`, and in the buffer-full case the accumulator absorbs the
output of the call by associativity of `++`. -/
theorem drain_eq_of_computes {f : σ → List α → Except ε (List β)} (hf : t.Computes f)
    (s : σ) (input : List α) (acc : List β) :
    t.drain s input acc = (f s input).map (acc ++ ·) := by
  fun_induction t.drain s input acc with
  | case1 s input acc e h => rw [hf.error h]; rfl
  | case2 s input acc s' input' out h => rw [hf.underflow h]; rfl
  | case3 s input acc s' input' out h ih =>
    rw [ih, hf.overflow h]
    cases f s' input' with
    | error e => rfl
    | ok rest => simp [Except.map, List.append_assoc]

end Transformer

end Buffered
