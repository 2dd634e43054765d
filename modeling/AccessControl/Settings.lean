import AccessControl.Environment
import AccessControl.Key
import AccessControl.Settings.Error
import AccessControl.Settings.Layer
import AccessControl.Toml.Document

/-! # Settings

Settings come from built-in values, a file and the variables of the environment, each over the ones
before. Sources are loaded in that order and the first that fails ends the loading; what they add up
to is then completed and checked.
-/
namespace AccessControl

structure TokenSettings where
  secret : Option Secret
  userLifetime : Nat
  recoveryLifetime : Nat
  apiLifetime : Option Nat
  deriving DecidableEq

structure LogSettings where
  level : String
  json : Bool
  deriving DecidableEq

structure Settings where
  tokens : TokenSettings
  /-- The time limit of a decision in milliseconds. -/
  decisionTimeout : Nat
  logging : LogSettings
  deriving DecidableEq

def dropFinalLineBreak (s : String) : String :=
  match s.toList.reverse with
  | '\n' :: rest => String.ofList rest.reverse
  | _ => s

/-- The secret in a variable, or in the file that a second variable names, which goes first. -/
def Environment.secret (e : Environment) (name : String) : Except SecretError (Option Secret) :=
  let fileName := name ++ "_FILE"
  match e.textAt? fileName with
  | some path =>
    if path.isEmpty then .error (.emptyPath fileName)
    else
      match e.readText path with
      | some text => .ok (some ⟨dropFinalLineBreak text⟩)
      | none => .error (.unreadable path)
  | none => .ok ((e.textAt? name).map Secret.mk)

inductive Precedence where
  | defaults
  | file
  | environment
  deriving DecidableEq, Repr

def Precedence.rank : Precedence → Nat
  | defaults => 10
  | file => 20
  | environment => 50

/-- Where settings come from: how far above the others, and what loading it from an environment
gives. -/
structure Source where
  precedence : Precedence
  load : Environment → Except SettingsError SettingsLayer

namespace Source

def textOf (e : Environment) (name : String) : Option String :=
  match e.textAt? name with
  | some s => if s.isEmpty then none else some s
  | none => none

def countOf (e : Environment) (name : String) : Except SettingsError (Option Nat) :=
  match textOf e name with
  | none => .ok none
  | some s =>
    match Text.readCount s with
    | some n => .ok (some n)
    | none => .error (.invalidValue name s!"invalid u64 value '{s}'")

def flagOf (e : Environment) (name : String) : Option Bool :=
  (textOf e name).map fun s => s.toList.map Char.toLower == ['t', 'r', 'u', 'e'] || s == "1"

def secretOf (e : Environment) (name : String) : Except SettingsError (Option Secret) :=
  (e.secret name).mapError .secret

def loadVariables (e : Environment) (stem : String) : Except SettingsError SettingsLayer := do
  let secret ← secretOf e s!"{stem}_AUTH_SECRET"
  let user ← countOf e s!"{stem}_AUTH_USER_KEY_TTL_SECS"
  let recovery ← countOf e s!"{stem}_AUTH_RECOVERY_KEY_TTL_SECS"
  let api ← countOf e s!"{stem}_AUTH_API_KEY_TTL_SECS"
  let timeout ← countOf e s!"{stem}_AUTHZ_DECISION_TIMEOUT_MS"
  let level := textOf e s!"{stem}_LOG_LEVEL"
  let json := flagOf e s!"{stem}_LOG_JSON"
  return ⟨some ⟨secret, user, recovery, api⟩, some ⟨timeout⟩, some ⟨level, json⟩⟩

def loadFile (e : Environment) (path : String) : Except SettingsError SettingsLayer :=
  match e.place path with
  | none => .ok .empty
  | some .directory => .error (.unreadableFile path)
  | some (.file contents) =>
    match Text.decode contents with
    | none => .error (.unreadableFile path)
    | some text =>
      match (Toml.read text).bind (SettingsLayer.ofValue false) with
      | some layer => .ok layer
      | none => .error (.malformedFile path)

def defaults : Source := ⟨.defaults, fun _ => .ok .empty⟩

def file (path : String) : Source := ⟨.file, fun e => loadFile e path⟩

def environment (stem : String) : Source := ⟨.environment, fun e => loadVariables e stem⟩

def given (precedence : Precedence) (layer : SettingsLayer) : Source :=
  ⟨precedence, fun _ => .ok layer⟩

end Source

namespace Settings

def defaultTimeout : Nat := 5000

def defaultLevel : String := "info"

/-- The longest lifetime of a key, a hundred years of 365 days in seconds. -/
def greatestLifetime : Nat := 100 * 365 * 24 * 60 * 60

def complete (l : SettingsLayer) : Settings :=
  let tokens := l.tokens.getD .empty
  let decisions := l.decisions.getD .empty
  let logging := l.logging.getD .empty
  { tokens :=
      { secret := tokens.secret
        userLifetime := tokens.userLifetime.getD Lifetimes.defaultUser
        recoveryLifetime := tokens.recoveryLifetime.getD Lifetimes.defaultRecovery
        apiLifetime := tokens.apiLifetime }
    decisionTimeout := decisions.timeout.getD defaultTimeout
    logging := { level := logging.level.getD defaultLevel, json := logging.json.getD false } }

def checkLifetime (name : String) : Option Nat → Except SettingsError Unit
  | none => .ok ()
  | some n =>
    if n = 0 then .error (.invalid s!"tokens.{name} must be greater than zero")
    else if greatestLifetime < n then
      .error (.invalid s!"tokens.{name} must not exceed {greatestLifetime}")
    else .ok ()

def check (s : Settings) : Except SettingsError Unit := do
  if s.tokens.secret.any Secret.isBlank then
    .error (.invalid "tokens.secret is set but empty; unset it or provide a signing secret")
  checkLifetime "user_key_ttl_secs" s.tokens.userLifetime
  checkLifetime "recovery_key_ttl_secs" s.tokens.recoveryLifetime
  checkLifetime "api_key_ttl_secs" s.tokens.apiLifetime
  if s.decisionTimeout = 0 then
    .error (.invalid "authz.decision_timeout_ms must be greater than zero")

def mergeSources (e : Environment) :
    SettingsLayer → List Source → Except SettingsError SettingsLayer
  | done, [] => .ok done
  | done, s :: rest => do mergeSources e (done.merge (← s.load e)) rest

/-- Sources by precedence; those of one precedence keep their order. -/
def inOrder (sources : List Source) : List Source :=
  sources.mergeSort fun a b => a.precedence.rank ≤ b.precedence.rank

def ofSources (e : Environment) (sources : List Source) : Except SettingsError Settings := do
  let s := complete (← mergeSources e .empty (inOrder sources))
  check s
  return s

def machineFile : String := "/etc/warden/auth.toml"

def stem : String := "WARDEN"

/-- Settings from the usual sources, with a file other than the machine's when one is given. -/
def load (e : Environment) (path : Option String) : Except SettingsError Settings :=
  ofSources e [.defaults, .file (path.getD machineFile), .environment stem]

def lifetimes (s : Settings) : Lifetimes :=
  ⟨s.tokens.userLifetime, s.tokens.recoveryLifetime, s.tokens.apiLifetime⟩

def tokensValue (s : TokenSettings) : Value :=
  .object [("secret", (s.secret.map Secret.toValue).getD .null),
    ("user_key_ttl_secs", .int s.userLifetime), ("recovery_key_ttl_secs", .int s.recoveryLifetime),
    ("api_key_ttl_secs", (s.apiLifetime.map fun n => Value.int n).getD .null)]

def decisionsValue (s : Settings) : Value :=
  .object [("decision_timeout_ms", .int s.decisionTimeout)]

def loggingValue (s : LogSettings) : Value :=
  .object [("level", .string s.level), ("json", .bool s.json)]

end Settings
end AccessControl
