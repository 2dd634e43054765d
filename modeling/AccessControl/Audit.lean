import AccessControl.AuthError

/-! # Audit records

One record for each verified request. Its outcome tells a refusal by policy from a token that was
not accepted and from a request that could not be judged.
-/
namespace AccessControl

inductive AuditOutcome where
  | allow
  | deny
  | unauthenticated
  | error
  deriving DecidableEq, Repr

namespace AuditOutcome

def name : AuditOutcome → String
  | allow => "allow"
  | deny => "deny"
  | unauthenticated => "unauthenticated"
  | error => "error"

def ofError : AuthError → AuditOutcome
  | .unauthorized => deny
  | .unauthenticated _ => unauthenticated
  | _ => error

end AuditOutcome

inductive AuditLevel where
  | info
  | warn
  deriving DecidableEq, Repr

def AuditLevel.name : AuditLevel → String
  | info => "INFO"
  | warn => "WARN"

structure AuditRecord where
  level : AuditLevel
  outcome : AuditOutcome
  object : String
  action : String
  /-- Who was allowed. -/
  subject : Option String
  /-- Why nobody was. -/
  error : Option String
  deriving DecidableEq, Repr

namespace AuditRecord

/-- The record of a request that was allowed to a subject or failed. -/
def ofResult (object action : String) : Result String → AuditRecord
  | .ok subject => ⟨.info, .allow, object, action, some subject, none⟩
  | .error e =>
    ⟨if e.isInternal then .warn else .info, .ofError e, object, action, none, some e.message⟩

def message : String := "verify"

def fields (r : AuditRecord) : List (String × String) :=
  [("level", r.level.name), ("message", message), ("outcome", r.outcome.name), ("object", r.object),
    ("action", r.action)] ++
    (r.subject.map fun s => ("subject", s)).toList ++ (r.error.map fun e => ("error", e)).toList

end AuditRecord
end AccessControl
