/-! Computations over 32-bit quantities. Offsets and addresses are natural numbers; each sum or
difference that the device forms in a 32-bit register goes through `fit` or `difference`, so
leaving the range is an outcome of its own and never a wrapped value. -/
namespace ParamStore

/-- Why a computation gave no value. The device reports an `error` and goes on; on an `overflow`
it halts. -/
inductive Failure (ε : Type) where
  | error (cause : ε)
  | overflow
  deriving DecidableEq, Repr

abbrev Attempt (ε α : Type) := Except (Failure ε) α

namespace Failure

variable {ε δ : Type}

def map (f : ε → δ) : Failure ε → Failure δ
  | error cause => error (f cause)
  | overflow => overflow

end Failure

namespace Attempt

variable {ε δ α : Type}

def fail (cause : ε) : Attempt ε α := .error (.error cause)

def mapError (f : ε → δ) : Attempt ε α → Attempt δ α
  | .ok value => .ok value
  | .error failure => .error (failure.map f)

/-- A register holds `value` only below `2 ^ 32`. -/
def fit (value : Nat) : Attempt ε Nat :=
  if value < 0x100000000 then .ok value else .error .overflow

/-- A counter of 16 bits. -/
def fitHalfword (value : Nat) : Attempt ε Nat :=
  if value < 0x10000 then .ok value else .error .overflow

/-- Register difference, defined only when it does not borrow. -/
def difference (minuend subtrahend : Nat) : Attempt ε Nat :=
  if subtrahend ≤ minuend then .ok (minuend - subtrahend) else .error .overflow

end Attempt

end ParamStore
