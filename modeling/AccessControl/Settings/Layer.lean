import AccessControl.Json.Record
import AccessControl.Secret
import AccessControl.Text.Digits

/-! # Layers of settings

A layer sets some fields and leaves the others to the layers below. Put one over another, each field
takes its value from the upper layer that sets it.
-/
namespace AccessControl

structure TokenLayer where
  secret : Option Secret
  userLifetime : Option Nat
  recoveryLifetime : Option Nat
  apiLifetime : Option Nat
  deriving DecidableEq

structure DecisionLayer where
  timeout : Option Nat
  deriving DecidableEq

structure LogLayer where
  level : Option String
  json : Option Bool
  deriving DecidableEq

structure SettingsLayer where
  tokens : Option TokenLayer
  decisions : Option DecisionLayer
  logging : Option LogLayer
  deriving DecidableEq

def upperOf {α : Type} (lower upper : Option α) : Option α := upper.or lower

def overWith {α : Type} (f : α → α → α) : Option α → Option α → Option α
  | some a, some b => some (f a b)
  | none, upper => upper
  | lower, none => lower

def TokenLayer.empty : TokenLayer := ⟨none, none, none, none⟩

def TokenLayer.merge (a b : TokenLayer) : TokenLayer :=
  ⟨upperOf a.secret b.secret, upperOf a.userLifetime b.userLifetime,
    upperOf a.recoveryLifetime b.recoveryLifetime, upperOf a.apiLifetime b.apiLifetime⟩

def DecisionLayer.empty : DecisionLayer := ⟨none⟩

def DecisionLayer.merge (a b : DecisionLayer) : DecisionLayer := ⟨upperOf a.timeout b.timeout⟩

def LogLayer.empty : LogLayer := ⟨none, none⟩

def LogLayer.merge (a b : LogLayer) : LogLayer := ⟨upperOf a.level b.level, upperOf a.json b.json⟩

namespace SettingsLayer

def empty : SettingsLayer := ⟨none, none, none⟩

def merge (a b : SettingsLayer) : SettingsLayer :=
  ⟨overWith TokenLayer.merge a.tokens b.tokens,
    overWith DecisionLayer.merge a.decisions b.decisions,
    overWith LogLayer.merge a.logging b.logging⟩

end SettingsLayer

def setting {α : Type} (name : String) (f : Value → Option α) (fields : List (String × Value)) :
    Option (Option α) :=
  Value.orElse name (Value.asOption f) none fields

def TokenLayer.ofValue (exact : Bool) (v : Value) : Option TokenLayer := do
  let names := ["secret", "user_key_ttl_secs", "recovery_key_ttl_secs", "api_key_ttl_secs"]
  let fields ← Layout.read ⟨names.map (·, .optional), false, exact⟩ v
  let secret ← setting "secret" Value.asString fields
  let user ← setting "user_key_ttl_secs" (Value.asNat Text.greatestCount) fields
  let recovery ← setting "recovery_key_ttl_secs" (Value.asNat Text.greatestCount) fields
  let api ← setting "api_key_ttl_secs" (Value.asNat Text.greatestCount) fields
  return ⟨secret.map Secret.mk, user, recovery, api⟩

def DecisionLayer.ofValue (exact : Bool) (v : Value) : Option DecisionLayer := do
  let fields ← Layout.read ⟨[("decision_timeout_ms", .optional)], false, exact⟩ v
  return ⟨← setting "decision_timeout_ms" (Value.asNat Text.greatestCount) fields⟩

def LogLayer.ofValue (exact : Bool) (v : Value) : Option LogLayer := do
  let fields ← Layout.read ⟨[("level", .optional), ("json", .optional)], false, exact⟩ v
  return ⟨← setting "level" Value.asString fields, ← setting "json" Value.asBool fields⟩

/-- A layer from a document; `exact` refuses lists with too many items. -/
def SettingsLayer.ofValue (exact : Bool) (v : Value) : Option SettingsLayer := do
  let names := ["tokens", "authz", "logging"]
  let fields ← Layout.read ⟨names.map (·, .defaulted), false, exact⟩ v
  let tokens ← setting "tokens" (TokenLayer.ofValue exact) fields
  let decisions ← setting "authz" (DecisionLayer.ofValue exact) fields
  let logging ← setting "logging" (LogLayer.ofValue exact) fields
  return ⟨tokens, decisions, logging⟩

end AccessControl
