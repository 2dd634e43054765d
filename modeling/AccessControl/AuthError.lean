/-! # Errors

Why a call on a store, a token or a request fails, with the text that is shown, the status that a
web service answers, and whether the same call may succeed later.
-/
namespace AccessControl

inductive AuthError where
  | malformedEntity (reason : String)
  | conflict (what : String)
  | notFound (what : String)
  | hasDependents (group : String) (children members : Nat)
  | malformedToken (reason : String)
  | expired
  | signing (reason : String)
  | unauthenticated (reason : String)
  | unauthorized
  | corruptHierarchy (group reason : String)
  | deadlineExceeded
  | storeUnavailable (reason : String)
  deriving DecidableEq, Repr

abbrev Result (α : Type) := Except AuthError α

namespace Result

variable {α β : Type}

theorem bind_eq_ok_iff {r : Result α} {f : α → Result β} {b : β} :
    (r >>= f) = .ok b ↔ ∃ a, r = .ok a ∧ f a = .ok b := by
  cases r with
  | error e => exact ⟨nofun, nofun⟩
  | ok a => exact ⟨fun h => ⟨a, rfl, h⟩, fun ⟨_, h, h'⟩ => by cases h; exact h'⟩

/-- A check comes before what follows it. -/
theorem check_eq_ok_iff {r : Result Unit} {f : Unit → Result β} {b : β} :
    (r >>= f) = .ok b ↔ r = .ok () ∧ f () = .ok b :=
  bind_eq_ok_iff.trans ⟨fun ⟨(), h⟩ => h, fun h => ⟨(), h⟩⟩

theorem guard_eq_ok_iff {c : Prop} [Decidable c] {e : AuthError} {r : Result β} {b : β} :
    (if c then .error e else r) = .ok b ↔ ¬c ∧ r = .ok b := by
  by_cases h : c <;> simp [h]

end Result

namespace AuthError

def message : AuthError → String
  | malformedEntity reason => s!"malformed entity: {reason}"
  | conflict what => s!"conflict: {what}"
  | notFound what => s!"not found: {what}"
  | hasDependents group children members =>
    s!"group {group} has dependents: {children} children, {members} members"
  | malformedToken reason => s!"malformed token: {reason}"
  | expired => "token expired"
  | signing reason => s!"signing error: {reason}"
  | unauthenticated reason => s!"unauthenticated: {reason}"
  | unauthorized => "unauthorized"
  | corruptHierarchy group reason => s!"corrupt group hierarchy at {group}: {reason}"
  | deadlineExceeded => "deadline exceeded"
  | storeUnavailable reason => s!"store unavailable: {reason}"

def status : AuthError → Nat
  | malformedEntity _ => 400
  | malformedToken _ | expired | unauthenticated _ => 401
  | unauthorized => 403
  | notFound _ => 404
  | conflict _ => 409
  | hasDependents .. => 422
  | signing _ | corruptHierarchy .. => 500
  | storeUnavailable _ => 503
  | deadlineExceeded => 504

def isInternal : AuthError → Bool
  | storeUnavailable _ | corruptHierarchy .. | signing _ => true
  | _ => false

def isRetryable : AuthError → Bool
  | storeUnavailable _ | deadlineExceeded => true
  | _ => false

end AuthError
end AccessControl
