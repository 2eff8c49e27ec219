import Mathlib.Logic.Function.Basic

/-!
# Status codes, C pointers and `size_t`

The vocabulary every module shares: `status.h`'s codes, the result pairs of
`module.h`, pointers as the code tests them, failure handlers, and the `size_t`
arithmetic of a 64-bit target.
-/

namespace LibJuno

/-- `JUNO_STATUS_T` by the codes of `status.h`. A callback may return any `int32_t`;
`custom` is one that `status.h` does not name. -/
inductive Status where
  | success
  | err
  | nullptrError
  | memallocError
  | memfreeError
  | invalidTypeError
  | invalidSizeError
  | tableFullError
  | dneError
  | fileError
  | readError
  | writeError
  | crcError
  | invalidRefError
  | refInUseError
  | invalidDataError
  | timeoutError
  | oobError
  | custom (code : Int)
  deriving DecidableEq, Repr, Inhabited

/-- `JUNO_MODULE_RESULT`: a status and a payload, which means something on success only. -/
structure Result (τ : Type) where
  tStatus : Status
  tOk : τ
  deriving DecidableEq, Repr

/-- A C pointer as the code tests it: whether it is NULL, and the object or function
behind it. Nothing is assumed of what lies behind NULL. -/
structure Ref (τ : Type) where
  nonNull : Bool
  deref : τ

/-- A pointer to `x`. -/
def Ref.to {τ : Type} (x : τ) : Ref τ := ⟨true, x⟩

/-- `JUNO_ASSERT_EXISTS`, as the status of a function that does nothing else. -/
def assertExists (present : Bool) : Status :=
  if present then .success else .nullptrError

@[simp] theorem assertExists_eq_success {present : Bool} :
    assertExists present = .success ↔ present = true := by
  cases present <;> simp [assertExists]

/-- `JUNO_FAILURE_HANDLER_T` with its user data, over a world of type `ω`. -/
abbrev FailureHandler (ω : Type) := Ref (Status → String → ω → ω)

/-- `JUNO_FAIL_ROOT`: the handler is called if there is one; control flow is unchanged. -/
def fail {ω : Type} (handler : FailureHandler ω) (tStatus : Status) (message : String) (w : ω) : ω :=
  if handler.nonNull then handler.deref tStatus message w else w

/-- `SIZE_MAX`. -/
def sizeMax : Nat := 0xFFFFFFFFFFFFFFFF

/-- The value of a `size_t` expression: reduced modulo `SIZE_MAX + 1`. -/
def sizeT (n : Nat) : Nat := n % (sizeMax + 1)

theorem sizeT_of_le {n : Nat} (h : n ≤ sizeMax) : sizeT n = n := by
  apply Nat.mod_eq_of_lt
  omega

end LibJuno
