import AccessControl.Digest.Hmac
import AccessControl.Encoding.Base64Url
import AccessControl.Json.Reader
import AccessControl.Secret
import AccessControl.Token.Claims
import AccessControl.Token.Header

/-! # Tokens

A token is the header, the claims and the signature of a key, each in Base64 and joined by dots. The
signature is the keyed digest of what stands before it under a shared secret. Reading goes from the
outside in: the parts, the header, the signature, the claims, and the expiry last.
-/
namespace AccessControl

structure Tokenizer where
  secret : Secret

namespace Tokenizer
open Token (Claims)
open Text (Octets)

def inspect (t : Tokenizer) : String :=
  "HmacTokenizer \x7b secret: " ++ t.secret.inspect ++ " \x7d"

/-- The octets of the secret, unless it is blank. -/
def signingKey (t : Tokenizer) : Result Octets :=
  if t.secret.isBlank then .error (.signing "signing secret is empty") else .ok t.secret.octets

def octetsOfChars (cs : List Char) : Octets := cs.flatMap Text.encodeChar

def signature (key : Octets) (text : List Char) : List Char :=
  Base64Url.encode (Hmac.digest key (octetsOfChars text))

def part (v : Value) : List Char := Base64Url.encode (octetsOfChars (Json.write v))

/-- Header and claims joined by a dot, which is the text that is signed. -/
def body (c : Claims) : List Char := part Token.header ++ '.' :: part c.toValue

def assemble (key : Octets) (c : Claims) : List Char :=
  body c ++ '.' :: signature key (body c)

/-- The last second at which a key may expire: 9999-12-31 23:59:59. -/
def greatestExpiry : Int := 253402300799

/-- An expiry must come after 1970 began, because zero stands for none, and in a year of four
digits. -/
def checkExpiry : Option Instant → Result Unit
  | none => .ok ()
  | some t =>
    if t.seconds ≤ 0 then .error (.signing s!"expiry {t.display} is not after the Unix epoch")
    else if greatestExpiry < t.seconds then .error (.signing s!"expiry {t.display} is out of range")
    else .ok ()

def issue (t : Tokenizer) (r : KeyRequest) : Result (Key × String) := do
  let signing ← t.signingKey
  match r.keyType with
  | none => .error (.signing "key type is required")
  | some keyType =>
    if r.subject.isEmpty then .error (.signing "subject is required")
    else
      let key := Key.ofRequest r keyType
      checkExpiry key.expiresAt
      return (key, String.ofList (assemble signing (Claims.ofKey key)))

def splitLastDot (s : List Char) : Option (List Char × List Char) :=
  match s.reverse.span (· != '.') with
  | (_, []) => none
  | (tail, _ :: front) => some (front.reverse, tail.reverse)

/-- Header, claims and signature of a text that is split at its last two dots. -/
def split (s : List Char) : Option (List Char × List Char × List Char) := do
  let (front, third) ← splitLastDot s
  let (first, second) ← splitLastDot front
  return (first, second, third)

def orMalformed {α : Type} (reason : String) : Option α → Result α
  | some a => .ok a
  | none => .error (.malformedToken reason)

def badEncoding : String := "Base64 error"

def badDocument : String := "JSON error"

/-- Refuses a header that names another algorithm. -/
def checkHeader (first : List Char) : Result Unit := do
  let octets ← orMalformed badEncoding (Base64Url.decode first)
  let algorithm ← orMalformed badDocument ((Json.readOctets octets).bind Token.algorithmOf)
  if algorithm = Token.signingAlgorithm then return ()
  else .error (.malformedToken "InvalidAlgorithm")

def checkSignature (key : Octets) (first second third : List Char) : Result Unit :=
  if signature key (first ++ '.' :: second) = third then .ok ()
  else .error (.malformedToken "InvalidSignature")

def readClaims (second : List Char) : Result Claims := do
  let octets ← orMalformed badEncoding (Base64Url.decode second)
  orMalformed badDocument ((Json.readOctets octets).bind Claims.ofValue)

def read (key : Octets) (token : List Char) : Result Key := do
  let (first, second, third) ← orMalformed "InvalidToken" (split token)
  checkHeader first
  checkSignature key first second third
  (← readClaims second).toKey

def parse (t : Tokenizer) (token : String) (now : Instant) : Result Key := do
  let key ← read (← t.signingKey) token.toList
  if key.isExpiredAt now then .error .expired else return key

end Tokenizer
end AccessControl
