import Mathlib.Algebra.GroupWithZero.Nat

/-!
# Counter mode

A block cipher as a stream cipher: the key stream is what the cipher makes of a counter, block
after block, and the text is combined with it byte by byte.  What is left of a block is kept, so
that a text may be given in pieces.

* `StreamState`          the last block, and how much of it is used up;
* `cryptCtr`             a piece of the text;
* `cryptCtr_cryptCtr`    **the other side** gets the text back, and its state is the same.
-/

namespace CSem

/-- a block of the key stream, and the place of its next byte; at 0 all of it is used up -/
structure StreamState (n : Nat) where
  offset : Fin n
  block : Vector UInt8 n
  deriving DecidableEq, Repr

section
variable {γ : Type} {n : Nat} [NeZero n] (next : γ → γ) (encrypt : γ → Vector UInt8 n)

/-- a new block, when the last one is used up -/
def refill (counter : γ) (state : StreamState n) : γ × StreamState n :=
  if state.offset = 0 then (next counter, { state with block := encrypt counter })
  else (counter, state)

/-- the bytes, and the counter and the state behind them -/
def cryptCtr : γ → StreamState n → List UInt8 → List UInt8 × γ × StreamState n
  | counter, state, [] => ([], counter, state)
  | counter, state, c :: input =>
    let (counter, state) := refill next encrypt counter state
    let rest := cryptCtr counter { state with offset := state.offset + 1 } input
    ((c ^^^ state.block[state.offset]) :: rest.1, rest.2)

variable {counter : γ} {state : StreamState n} {input : List UInt8} {c : UInt8}

theorem cryptCtr_cons :
    cryptCtr next encrypt counter state (c :: input) =
      let (counter, state) := refill next encrypt counter state
      let rest := cryptCtr next encrypt counter { state with offset := state.offset + 1 } input
      ((c ^^^ state.block[state.offset]) :: rest.1, rest.2) := rfl

theorem length_cryptCtr : (cryptCtr next encrypt counter state input).1.length = input.length := by
  induction input generalizing counter state with
  | nil => rfl
  | cons c input ih => exact congrArg Nat.succ ih

/-- **the other side**: the key stream does not depend on the text -/
theorem cryptCtr_cryptCtr :
    cryptCtr next encrypt counter state (cryptCtr next encrypt counter state input).1 =
      (input, (cryptCtr next encrypt counter state input).2) := by
  induction input generalizing counter state with
  | nil => rfl
  | cons c input ih =>
    rw [cryptCtr_cons]
    dsimp only
    rw [cryptCtr_cons]
    dsimp only
    rw [ih, UInt8.xor_assoc, UInt8.xor_self, UInt8.xor_zero]

end

end CSem
