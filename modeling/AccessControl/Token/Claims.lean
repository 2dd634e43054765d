import AccessControl.Group
import AccessControl.Key

/-! # Token claims

The second part of a token says what the key says. A key identifier, an email and an expiry are left
out when the key has none, and the issuer of the key when it is empty.
-/
namespace AccessControl.Token

structure Claims where
  authority : String
  subject : String
  issuedAt : Int
  expiresAt : Option Int
  keyId : Option String
  issuerId : String
  email : Option String
  keyType : Option Nat
  deriving DecidableEq, Repr

namespace Claims

def ownAuthority : String := "warden.auth"

def ofKey (k : Key) : Claims :=
  ⟨ownAuthority, k.subject, k.issuedAt.seconds, k.expiresAt.map (·.seconds), k.id, k.issuerId,
    k.email, some k.keyType.wire⟩

def field (name : String) : Option Value → List (String × Value)
  | some v => [(name, v)]
  | none => []

def toValue (c : Claims) : Value :=
  .object ([("iss", .string c.authority), ("sub", .string c.subject), ("iat", .int c.issuedAt)] ++
    field "exp" (c.expiresAt.map .int) ++ field "jti" (c.keyId.map .string) ++
    field "issuer_id" (if c.issuerId.isEmpty then none else some (.string c.issuerId)) ++
    field "email" (c.email.map .string) ++
    [("type", (c.keyType.map fun n => Value.int n).getD .null)])

def layout : Layout :=
  ⟨["iss", "sub", "iat", "exp", "jti", "issuer_id", "email", "type", "nbf", "aud"].map
    (·, .defaulted), false, false⟩

def listLength : Nat := 5

def isPlaced : Value → Bool
  | .array items => items.length == listLength
  | _ => true

/-- The start of validity is tried as a number; what has content is not looked into. -/
def isStart : Value → Bool
  | .array (_ :: _) => false
  | .object (_ :: _) => false
  | .unreadable passed => passed
  | _ => true

/-- The audience is tried as whatever it is, and only has to be left behind. -/
def isAudience (v : Value) : Bool := v.attempt (Group.depthLimit - 1) != .stuck

/-- The bounds of a timestamp, and the greatest number of a key type. -/
def leastStamp : Int := -9223372036854775808

def greatestStamp : Int := 9223372036854775807

def greatestType : Nat := 4294967295

def stamp : Value → Option Int := Value.asInt leastStamp greatestStamp

def ofValue (v : Value) : Option Claims := do
  let fields ← layout.read v
  let authority ← Value.orElse "iss" Value.asString "" fields
  let subject ← Value.orElse "sub" Value.asString "" fields
  let issuedAt ← Value.orElse "iat" stamp 0 fields
  let expiresAt ← Value.orElse "exp" (Value.asOption stamp) none fields
  let keyId ← Value.orElse "jti" (Value.asOption Value.asString) none fields
  let issuerId ← Value.orElse "issuer_id" Value.asString "" fields
  let email ← Value.orElse "email" (Value.asOption Value.asString) none fields
  let keyType ← Value.orElse "type" (Value.asOption (Value.asNat greatestType)) none fields
  if isPlaced v && (Value.lookup "nbf" fields).all isStart &&
    (Value.lookup "aud" fields).all isAudience
  then return ⟨authority, subject, issuedAt, expiresAt, keyId, issuerId, email, keyType⟩
  else none

def stampInstant (seconds : Int) : Result Instant :=
  match Instant.ofSeconds? seconds with
  | some t => .ok t
  | none => .error (.malformedToken s!"timestamp {seconds} out of range")

/-- The expiry that a claim stands for; zero stands for none. -/
def expiry : Option Int → Result (Option Instant)
  | none => .ok none
  | some n => if n = 0 then .ok none else (stampInstant n).map some

def toKey (c : Claims) : Result Key := do
  if c.authority ≠ ownAuthority then
    .error (.malformedToken s!"unexpected issuer '{c.authority}'")
  else
    match c.keyType with
    | none => .error (.malformedToken "missing key type")
    | some n =>
      let keyType ← KeyType.ofWire n
      if c.subject.isEmpty then .error (.malformedToken "missing subject")
      else
        let issuedAt ← stampInstant c.issuedAt
        let expiresAt ← expiry c.expiresAt
        return ⟨c.keyId, c.issuerId, c.subject, c.email, keyType, issuedAt, expiresAt⟩

end Claims
end AccessControl.Token
