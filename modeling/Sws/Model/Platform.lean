import Mathlib.Tactic.Ring
import Sws.Foundation.Lockstep

/-!
# Platform: Integer Conversions, Socket Errors, Exceptions

What the library takes from its platform (64-bit Windows): the widths its integer
conversions wrap at, the error codes it tells apart, and the ways in which a call can end
without a result.

## Model

- `ptrdiff_t` and `size_t` values are `Int` and `ℕ`; every conversion between them that can
  wrap goes through `toSize` or `toPtrdiff`, every conversion to `int` through `toInt`.
- An error code is one of those `to_state` names, or `other`.
- A C++ exception keeps the state it was thrown in.  Undefined behaviour and a native call
  that never returns are kept apart from exceptions: no caller can catch them.
-/

namespace Sws

/-! ## Integer conversions -/

/-- Conversion to `size_t`. -/
def toSize (z : Int) : ℕ := (z % 2 ^ 64).toNat

/-- Conversion to `ptrdiff_t`. -/
def toPtrdiff (z : Int) : Int := Int.bmod z (2 ^ 64)

/-- Conversion to `int`. -/
def toInt (z : Int) : Int := Int.bmod z (2 ^ 32)

/-- A number that `size_t` can hold is kept. -/
theorem toSize_of_nonneg {z : Int} (h₀ : 0 ≤ z) (h : z < 2 ^ 64) : toSize z = z.toNat := by
  rw [toSize, Int.emod_eq_of_lt h₀ h]

/-- A number that `ptrdiff_t` can hold is kept. -/
theorem toPtrdiff_of_mem {z : Int} (h₀ : -2 ^ 63 ≤ z) (h : z < 2 ^ 63) : toPtrdiff z = z := by
  unfold toPtrdiff
  rw [Int.bmod_eq_of_le] <;> omega

theorem toPtrdiff_mem (z : Int) : -2 ^ 63 ≤ toPtrdiff z ∧ toPtrdiff z < 2 ^ 63 := by
  have hle := Int.bmod_lt (x := z) (m := 2 ^ 64) (by decide)
  have hge := Int.le_bmod (x := z) (m := 2 ^ 64) (by decide)
  unfold toPtrdiff
  omega

/-- A size that `int` can hold is kept. -/
theorem toInt_of_mem {z : Int} (h₀ : 0 ≤ z) (h : z < 2 ^ 31) : toInt z = z := by
  unfold toInt
  rw [Int.bmod_eq_of_le] <;> omega

/-- A size that is no `int` is narrowed to a smaller number. -/
theorem toInt_lt {z : Int} (h : 2 ^ 31 ≤ z) : toInt z < z := by
  have hlt := Int.bmod_lt (x := z) (m := 2 ^ 32) (by decide)
  unfold toInt
  omega

/-! ## Error codes -/

/-- Native Winsock error codes.  The enumerators that `to_state` does not name are `other`. -/
inductive SocketError
  | none
  | wouldBlock
  | alreadyInProgress
  | connectionAborted
  | connectionReset
  | timedOut
  | networkReset
  | notConnected
  | isConnected
  | other (code : Int)
  deriving DecidableEq, Repr

/-- Socket state for simple error checking. -/
inductive SocketState
  | done
  | inProgress
  | closed
  | error
  deriving DecidableEq, Repr

/-- Derives a `SocketState` from a `SocketError`. -/
def toState : SocketError → SocketState
  | .wouldBlock | .alreadyInProgress => .inProgress
  | .connectionAborted | .connectionReset | .timedOut | .networkReset | .notConnected => .closed
  -- `WSAEISCONN` may be returned when a non-blocking connection has completed
  | .isConnected | .none => .done
  | .other _ => .error

/-! ## Ending without a result -/

/-- The exceptions the library and the standard library throw. -/
inductive Exception
  | logicError (message : String)
  | runtimeError (message : String)
  | outOfRange
  | socketException (message : String) (nativeError : SocketError)
  deriving DecidableEq, Repr

/-- Behaviour the language leaves undefined. -/
inductive Undefined
  | signedOverflow
  | outOfBounds
  | nullPointer
  deriving DecidableEq, Repr

/-- The ways a call can end without a result. -/
inductive Fault
  | thrown (e : Exception)
  | undefined (u : Undefined)
  /-- A native call has not returned. -/
  | pending
  deriving DecidableEq, Repr

/-- The faults a caller can catch. -/
def Caught : Fault → Prop
  | .thrown _ => True
  | _ => False

@[simp] theorem caught_thrown (e : Exception) : Caught (.thrown e) := trivial

@[simp] theorem not_caught_undefined (u : Undefined) : ¬Caught (.undefined u) := id

@[simp] theorem not_caught_pending : ¬Caught .pending := id

/-- Throws `std::logic_error` unless the condition holds. -/
def enforce {σ : Type} (condition : Prop) [Decidable condition] (message : String) :
    EStateM Fault σ Unit :=
  if condition then pure () else throw (.thrown (.logicError message))

@[simp] theorem enforce_of_pos {σ : Type} {c : Prop} [Decidable c] (h : c) (msg : String) :
    (enforce c msg : EStateM Fault σ Unit) = pure () := if_pos h

/-- A condition that fails throws before anything else is done. -/
theorem enforce_of_neg {σ : Type} {c : Prop} [Decidable c] (h : ¬c) (msg : String) :
    (enforce c msg : EStateM Fault σ Unit) = throw (.thrown (.logicError msg)) := if_neg h

/-- Rethrows a conversion's exception. -/
def liftExcept {σ α : Type} : Except Exception α → EStateM Fault σ α
  | .ok a => pure a
  | .error e => throw (.thrown e)

section Respects

variable {σ α : Type} {R : σ → σ → Prop}

/-- A check of what is the same in related states. -/
theorem respects_enforce (c : Prop) [Decidable c] (message : String) :
    Foundation.Respects R (enforce c message) :=
  .ite (.pure _) (.throw _)

theorem respects_liftExcept (x : Except Exception α) : Foundation.Respects R (liftExcept x) := by
  cases x with
  | ok a => exact .pure a
  | error e => exact .throw _

end Respects

end Sws
