import AccessControl.CommandLine.Help
import AccessControl.Fresh
import AccessControl.Identity
import AccessControl.Seed
import AccessControl.Settings

/-! # The command line

Issues keys, reads tokens and judges requests against a seed, each as one run that ends with a
status, what it prints, and why it failed.
-/
namespace AccessControl.CommandLine
open Text (Octets)

structure Failure where
  headline : String
  cause : Option String
  deriving DecidableEq, Repr

structure Outcome where
  status : Nat
  output : String
  failure : Option Failure

namespace Failure

def ofSettings (e : SettingsError) : Failure := ⟨e.message, e.cause⟩

def ofAuth (e : AuthError) : Failure := ⟨e.message, none⟩

def ofSeed (e : SeedError) : Failure := ⟨e.headline, e.cause⟩

def noSecret : Failure :=
  ⟨"no signing secret configured; set WARDEN_AUTH_SECRET or WARDEN_AUTH_SECRET_FILE", none⟩

def unjudged (e : AuthError) : Failure := ⟨"decision could not be evaluated", some e.message⟩

def causeIndent : Nat := 4

/-- The cause as it is printed, but for the indentation of its first line. -/
def hangingCause (f : Failure) : Option String := f.cause.map (Terminal.hang causeIndent)

end Failure

/-- What a run knows of the world at its start: the time, and numbers for fresh identifiers. -/
structure Start where
  environment : Environment
  now : Instant
  fresh : Nat → String

def versionNumber : String := "0.1.0"

def platform : String := "linux-x86_64"

def versionText : String := s!"warden version: {versionNumber}\nPlatform:       {platform}\n"

def usageStatus : Nat := 2

def settings (s : Start) (config : Option String) : Except Failure Settings :=
  (Settings.load s.environment config).mapError .ofSettings

def tokenizer (settings : Settings) : Except Failure Tokenizer :=
  match settings.tokens.secret with
  | some secret => .ok ⟨secret⟩
  | none => .error .noSecret

/-- The lifetime of a key of some type, unless it lives forever. -/
def lifetimeFor (settings : Settings) : KeyType → Option Nat
  | .user => some settings.tokens.userLifetime
  | .recovery => some settings.tokens.recoveryLifetime
  | .api => settings.tokens.apiLifetime

def keyIdFor (s : Start) (id : Option String) (kind : KeyType) : Option String :=
  match id, kind with
  | some id, _ => some id
  | none, .api => some (s.fresh 0)
  | none, _ => none

def keyRequest (s : Start) (settings : Settings) (subject : String) (kind : KeyType)
    (email issuer id : Option String) (lifetime : Option Nat) : KeyRequest :=
  let request : KeyRequest :=
    { KeyRequest.new subject s.now with
      issuerId := issuer.getD subject
      email := email
      id := keyIdFor s id kind
      keyType := some kind }
  match lifetime.or (lifetimeFor settings kind) with
  | some n => request.expiresIn (Lifetime.ofSeconds n)
  | none => request

def engine (settings : Settings) : Engine := ⟨some settings.decisionTimeout⟩

/-- The decision on a request after the records of a seed were put into empty stores. These are in
memory and answer at once, so an answer always comes. -/
def judge (s : Start) (settings : Settings) (seedPath : String) (subject : Principal)
    (object action : String) : Except Failure Decision := do
  let seed ← (Seed.ofFile s.environment seedPath).mapError Failure.ofSeed
  let (applied, stores) := seed.apply s.fresh s.now .empty
  applied.mapError Failure.ofSeed
  let object ← (ObjectRef.parse object).mapError Failure.ofAuth
  let answer :=
    ((engine settings).authorize .calm .background ⟨subject, object, action⟩ ⟨stores, 0, 0⟩).1
  (answer.getD (.error .deadlineExceeded)).mapError Failure.unjudged

def runCommand (s : Start) (config : Option String) : Command → Except Failure (Nat × String)
  | .issue subject kind email issuer id lifetime => do
    let settings ← settings s config
    let tokenizer ← tokenizer settings
    let request := keyRequest s settings subject kind email issuer id lifetime
    let (_, token) ← (tokenizer.issue request).mapError Failure.ofAuth
    return (0, token ++ "\n")
  | .parse token => do
    let tokenizer ← tokenizer (← settings s config)
    let key ← (tokenizer.parse token s.now).mapError Failure.ofAuth
    return (0, Json.pretty key.toValue ++ "\n")
  | .check seed subject object action => do
    let decision ← judge s (← settings s config) seed subject object action
    return (if decision.isAllowed then 0 else 1, Json.pretty decision.toValue ++ "\n")
  | .version => return (0, versionText)

def configValue (s : Start) : Option Octets := s.environment.bindings.lookup configVariable

def isRaised (s : Start) (name : String) : Bool :=
  (s.environment.bindings.lookup name).any fun v => !v.isEmpty

/-- The output is no terminal, but the environment may ask for control sequences all the same. -/
def isColored (s : Start) : Bool := isRaised s "CLICOLOR_FORCE" && !isRaised s "NO_COLOR"

def helpOutput (s : Start) (topic : Option String) : String :=
  let text := Help.text (((configValue s).map Text.shown).getD "") topic
  if isColored s then text else Terminal.plain text

def run (s : Start) (args : List Octets) : Outcome :=
  match invocation (configValue s) args with
  | .refused => ⟨usageStatus, "", none⟩
  | .version => ⟨0, s!"warden {versionNumber}\n", none⟩
  | .help topic => ⟨0, helpOutput s topic, none⟩
  | .run config command =>
    match runCommand s config command with
    | .ok (status, output) => ⟨status, output, none⟩
    | .error failure => ⟨1, "", some failure⟩

end AccessControl.CommandLine
