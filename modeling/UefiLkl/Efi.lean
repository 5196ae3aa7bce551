import Mathlib.Data.List.Basic
set_option autoImplicit false

/-!
Status codes of the firmware, and their translation from kernel error numbers.
-/

namespace UefiLkl

/-- The `EFI_STATUS` values the driver handles; `maxUintn` is `MAX_UINTN`. -/
inductive EfiStatus where
  | success | warnDeleteFailure
  | loadError | invalidParameter | unsupported | badBufferSize | bufferTooSmall | notReady
  | deviceError | writeProtected | outOfResources | volumeFull | noMedia | notFound
  | accessDenied | timeout | aborted | protocolError | alreadyStarted | maxUintn
  deriving DecidableEq, Repr

/-- `EFI_ERROR`: the high bit of the status is set. -/
def EfiStatus.isError : EfiStatus → Bool
  | .success | .warnDeleteFailure => false
  | _ => true

def ENOENT : Int := 2
def EBADF : Int := 9
def EFAULT : Int := 14
def EEXIST : Int := 17
def ENOTDIR : Int := 20
def EISDIR : Int := 21
def EINVAL : Int := 22
def ENAMETOOLONG : Int := 36
def ENOSYS : Int := 38
def ELOOP : Int := 40

/-- Indexed by error number, ten to a pair of lines. -/
def lklErrorStatus : List EfiStatus := [
  .success, .accessDenied, .notFound, .notFound, .aborted,
  .deviceError, .notFound, .invalidParameter, .invalidParameter, .invalidParameter,
  .notFound, .notReady, .outOfResources, .accessDenied, .invalidParameter,
  .invalidParameter, .deviceError, .deviceError, .deviceError, .notFound,
  .invalidParameter, .invalidParameter, .invalidParameter, .outOfResources, .outOfResources,
  .invalidParameter, .notReady, .outOfResources, .volumeFull, .invalidParameter,
  .writeProtected, .outOfResources, .deviceError, .invalidParameter, .unsupported,
  .unsupported, .invalidParameter, .outOfResources, .invalidParameter, .unsupported,
  .deviceError, .unsupported, .unsupported, .invalidParameter, .invalidParameter,
  .deviceError, .deviceError, .deviceError, .invalidParameter, .deviceError,
  .notReady, .deviceError, .deviceError, .invalidParameter, .outOfResources,
  .notFound, .invalidParameter, .invalidParameter, .unsupported, .unsupported,
  .invalidParameter, .notReady, .timeout, .outOfResources, .notFound,
  .notFound, .notFound, .deviceError, .deviceError, .deviceError,
  .deviceError, .protocolError, .unsupported, .deviceError, .deviceError,
  .outOfResources, .deviceError, .deviceError, .deviceError, .notFound,
  .loadError, .loadError, .loadError, .loadError, .loadError,
  .deviceError, .deviceError, .outOfResources, .invalidParameter, .invalidParameter,
  .outOfResources, .invalidParameter, .notFound, .unsupported, .unsupported,
  .unsupported, .unsupported, .unsupported, .notReady, .deviceError,
  .deviceError, .deviceError, .deviceError, .aborted, .deviceError,
  .outOfResources, .deviceError, .deviceError, .deviceError, .deviceError,
  .timeout, .accessDenied, .deviceError, .deviceError, .notReady,
  .notReady, .invalidParameter, .deviceError, .unsupported, .outOfResources,
  .invalidParameter, .deviceError, .volumeFull, .noMedia, .invalidParameter,
  .aborted, .notFound, .deviceError, .deviceError, .deviceError,
  .invalidParameter, .deviceError, .invalidParameter, .deviceError]

def lklError2EfiError (error : Int) : EfiStatus :=
  (lklErrorStatus[error.natAbs]?).getD .maxUintn

set_option maxRecDepth 2000 in
theorem lklErrorStatus_tail_isError : ∀ s ∈ lklErrorStatus.tail, s.isError = true := by
  decide

theorem lklError2EfiError_isError {error : Int} (h : error ≠ 0) :
    (lklError2EfiError error).isError = true := by
  obtain ⟨i, hi⟩ : ∃ i, error.natAbs = i + 1 :=
    Nat.exists_eq_add_one.mpr (Int.natAbs_pos.mpr h)
  unfold lklError2EfiError
  rw [hi, ← List.getElem?_tail]
  cases hs : lklErrorStatus.tail[i]? with
  | none => rfl
  | some s => exact lklErrorStatus_tail_isError s (List.mem_of_getElem? hs)

@[simp] theorem lklError2EfiError_zero : lklError2EfiError 0 = .success := rfl

theorem lklError2EfiError_eq_success {error : Int} :
    lklError2EfiError error = .success ↔ error = 0 := by
  constructor
  · intro h
    by_contra hne
    have herror := lklError2EfiError_isError hne
    rw [h] at herror
    cases herror
  · rintro rfl
    rfl

end UefiLkl
