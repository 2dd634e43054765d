import AccessControl.Calendar.Text
import AccessControl.Subject

/-! # Keys

A key says who a subject is, who asked for it and until when it holds. Times are whole seconds, and
a key expires at its expiry.
-/
namespace AccessControl

inductive KeyType where
  | user
  | api
  | recovery
  deriving DecidableEq, Repr

namespace KeyType

def all : List KeyType := [user, api, recovery]

def display : KeyType → String
  | user => "user"
  | api => "api"
  | recovery => "recovery"

def name : KeyType → String
  | user => "user_key"
  | api => "api_key"
  | recovery => "recovery_key"

def wire : KeyType → Nat
  | user => 0
  | api => 1
  | recovery => 2

def greatestWire : Nat := 2

def ofWire (n : Nat) : Result KeyType :=
  match all.find? fun t => t.wire == n with
  | some t => .ok t
  | none => .error (.malformedToken s!"key type {n} exceeds maximum {greatestWire}")

def toValue (t : KeyType) : Value := .string t.name

def ofValue (isEmpty : Value → Bool) (v : Value) : Option KeyType :=
  (v.asName isEmpty (all.map name)).bind fun s => all.find? fun t => t.name == s

theorem ofWire_wire (t : KeyType) : ofWire t.wire = .ok t := by cases t <;> rfl

end KeyType

abbrev Lifetime := Nat

namespace Lifetime

def ofSeconds (n : Nat) : Lifetime := n * 1000000000

def ofMillis (n : Nat) : Lifetime := n * 1000000

def greatest : Lifetime := ofMillis 9223372036854775807

end Lifetime

structure KeyLifetimes where
  user : Lifetime
  recovery : Lifetime
  api : Option Lifetime
  deriving DecidableEq, Repr

structure Lifetimes where
  user : Nat
  recovery : Nat
  api : Option Nat
  deriving DecidableEq, Repr

namespace Lifetimes

def defaultUser : Nat := 36000

def defaultRecovery : Nat := 300

def default : Lifetimes := ⟨defaultUser, defaultRecovery, none⟩

def toKeyLifetimes (l : Lifetimes) : KeyLifetimes :=
  ⟨Lifetime.ofSeconds l.user, Lifetime.ofSeconds l.recovery, l.api.map Lifetime.ofSeconds⟩

end Lifetimes

structure KeyRequest where
  subject : String
  issuerId : String
  email : Option String
  id : Option String
  keyType : Option KeyType
  issuedAt : Instant
  expiresAt : Option Instant
  deriving DecidableEq, Repr

namespace KeyRequest

def new (subject : String) (issuedAt : Instant) : KeyRequest :=
  ⟨subject, "", none, none, none, issuedAt, none⟩

/-- The moment a lifetime after the issue, unless the span is too long or the calendar ends
before. -/
def endOf? (r : KeyRequest) (lifetime : Lifetime) : Option Instant :=
  if lifetime ≤ Lifetime.greatest then r.issuedAt.add? lifetime else none

/-- Sets the expiry a lifetime after the issue, or at the end of the calendar when there is no such
moment. -/
def expiresIn (r : KeyRequest) (lifetime : Lifetime) : KeyRequest :=
  { r with expiresAt := some ((r.endOf? lifetime).getD Instant.latest) }

end KeyRequest

structure Key where
  id : Option String
  issuerId : String
  subject : String
  email : Option String
  keyType : KeyType
  issuedAt : Instant
  expiresAt : Option Instant
  deriving DecidableEq, Repr

namespace Key

/-- The key that a request of some type asks for, with its times cut to whole seconds. -/
def ofRequest (r : KeyRequest) (t : KeyType) : Key :=
  ⟨r.id, r.issuerId, r.subject, r.email, t, r.issuedAt.truncate, r.expiresAt.map Instant.truncate⟩

def isExpiredAt (k : Key) (now : Instant) : Bool :=
  match k.expiresAt with
  | some t => t.le now
  | none => false

def optional (s : Option String) : Value := (s.map Value.string).getD .null

def timeValue (t : Instant) : Value := .string t.text

def toValue (k : Key) : Value :=
  .object [("id", optional k.id), ("issuer_id", .string k.issuerId), ("subject", .string k.subject),
    ("email", optional k.email), ("key_type", k.keyType.toValue),
      ("issued_at", timeValue k.issuedAt),
    ("expires_at", (k.expiresAt.map timeValue).getD .null)]

end Key
end AccessControl
