import AccessControl.Audit
import AccessControl.Decision
import AccessControl.Tokenizer

/-! # Identities

Keys are issued to subjects who log in, recover an account or ask for an API key, and the tokens
they present later are resolved to identities and judged. An API key counts only while it is on
record, and a recovery key never authorizes a request.
-/
namespace AccessControl

structure Identity where
  subject : String
  email : Option String
  keyType : KeyType
  keyId : Option String
  deriving DecidableEq, Repr

namespace Identity

def ofKey (k : Key) : Identity := ⟨k.subject, k.email, k.keyType, k.id⟩

def toValue (i : Identity) : Value :=
  .object [("subject", .string i.subject), ("email", Key.optional i.email),
    ("key_type", i.keyType.toValue), ("key_id", Key.optional i.keyId)]

end Identity

structure IdentityService where
  tokenizer : Tokenizer
  engine : Engine
  lifetimes : KeyLifetimes

namespace IdentityService

/-- A token that is malformed or expired does not say who its bearer is. -/
def refuseToken : AuthError → AuthError
  | .expired => .unauthenticated AuthError.expired.message
  | .malformedToken reason => .unauthenticated (AuthError.malformedToken reason).message
  | e => e

def parse (s : IdentityService) (token : String) (now : Instant) : Result Key :=
  (s.tokenizer.parse token now).mapError refuseToken

def issueSessionKey (s : IdentityService) (subject : String) (email : Option String)
    (keyType : KeyType) (lifetime : Lifetime) (now : Instant) : Result (Key × String) :=
  if subject.isEmpty then .error (.malformedEntity "subject is empty")
  else
    let request : KeyRequest :=
      { KeyRequest.new subject now with
        issuerId := subject, email := email, keyType := some keyType }
    s.tokenizer.issue (request.expiresIn lifetime)

def login (s : IdentityService) (subject : String) (email : Option String) (now : Instant) :
    Result (Key × String) :=
  s.issueSessionKey subject email .user s.lifetimes.user now

def issueRecoveryKey (s : IdentityService) (subject : String) (email : Option String)
    (now : Instant) : Result (Key × String) :=
  s.issueSessionKey subject email .recovery s.lifetimes.recovery now

def authenticateIssuer (s : IdentityService) (token : String) (now : Instant) : Result Key := do
  let key ← s.parse token now
  if key.keyType = .user then return key else .error .unauthorized

/-- An API key with a given identifier for the bearer of a token. -/
def apiRequest (s : IdentityService) (issuer : Key) (keyId : String) (lifetime : Option Lifetime)
    (issuedAt : Instant) : KeyRequest :=
  let request : KeyRequest :=
    { KeyRequest.new issuer.subject issuedAt with
      issuerId := issuer.subject
      email := issuer.email
      id := some keyId
      keyType := some .api }
  match lifetime.orElse fun _ => s.lifetimes.api with
  | some lifetime => request.expiresIn lifetime
  | none => request

/-- The result of a computation without store calls, and what to do with it. -/
def andThen {α β : Type} (r : Result α) (f : α → Program β) : Program β :=
  match r with
  | .ok a => f a
  | .error e => .done (.error e)

/-- Issues an API key and puts it on record. The clock is read again once the issuer is known. -/
def issueApiKey (s : IdentityService) (token keyId : String) (lifetime : Option Lifetime)
    (now issuedAt : Instant) : Program (Key × String) :=
  andThen (s.authenticateIssuer token now) fun issuer =>
    andThen (s.tokenizer.issue (s.apiRequest issuer keyId lifetime issuedAt)) fun issued => do
      let _ ← Program.ask (.saveKey issued.1)
      return issued

def retrieveKey (s : IdentityService) (token keyId : String) (now : Instant) : Program Key :=
  andThen (s.authenticateIssuer token now) fun issuer => Program.ask (.key ⟨issuer.subject, keyId⟩)

def revokeKey (s : IdentityService) (token keyId : String) (now : Instant) : Program Unit :=
  andThen (s.authenticateIssuer token now) fun issuer =>
    Program.ask (.removeKey ⟨issuer.subject, keyId⟩)

def requireRecord (k : Key) : Program Unit :=
  if k.keyType = .api then
    match k.id with
    | none => Program.fail (.unauthenticated "api key has no id")
    | some id =>
      .call (.key ⟨k.issuerId, id⟩) fun r =>
        match r with
        | .ok _ => .done (.ok ())
        | .error (.notFound _) => Program.fail (.unauthenticated s!"api key {id} is revoked")
        | .error e => Program.fail e
  else .done (.ok ())

def identify (s : IdentityService) (token : String) (now : Instant) : Program Identity :=
  andThen (s.parse token now) fun key => do
    requireRecord key
    return Identity.ofKey key

def request (i : Identity) (object : ObjectRef) (action : String) : AccessRequest :=
  ⟨⟨.user, i.subject⟩, object, action⟩

/-- Resolves a token and judges the request of its bearer. -/
def examine (s : IdentityService) (conditions : Conditions) (ctx : Context) (token : String)
    (object : ObjectRef) (action : String) (now : Instant) : Timed Identity := do
  let identity ← (s.identify token now).perform conditions ctx
  if identity.keyType = .recovery then
    Timed.fail (.unauthenticated "recovery keys cannot authorize requests")
  else
    match ← s.engine.authorize conditions ctx (request identity object action) with
    | .allow _ => return identity
    | .deny => Timed.fail .unauthorized

structure Verification where
  result : Result Identity
  audit : List AuditRecord

def verify (s : IdentityService) (conditions : Conditions) (ctx : Context) (token : String)
    (object : ObjectRef) (action : String) (now : Instant) (w : World) :
    Option Verification × World :=
  match s.examine conditions ctx token object action now w with
  | (some r, w') => (some ⟨r, [AuditRecord.ofResult object.text action (r.map (·.subject))]⟩, w')
  | (none, w') => (none, w')

end IdentityService
end AccessControl
