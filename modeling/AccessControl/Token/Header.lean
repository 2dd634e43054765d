import AccessControl.Group
import AccessControl.Json.Writer

/-! # Token headers

The first part of a token names the algorithm of its signature. Tokens are signed with the keyed
digest `HS256`; a header may carry further fields, which have to be well formed and are otherwise
not looked at.
-/
namespace AccessControl.Token

def signingAlgorithm : String := "HS256"

def algorithms : List String :=
  ["HS256", "HS384", "HS512", "ES256", "ES384", "RS256", "RS384", "RS512", "PS256", "PS384",
    "PS512", "EdDSA"]

def header : Value := .object [("typ", .string "JWT"), ("alg", .string signingAlgorithm)]

def asStrings : Value → Option (List String)
  | .array items => items.mapM Value.asString
  | _ => none

def holds {α : Type} (name : String) (f : Value → Option α) (fields : List (String × Value)) :
    Bool :=
  (Value.orElse name (Value.asOption f) none fields).isSome

namespace PublicKey

/-- The content of a name that needs none, as null or as an object without fields. -/
def isBare : Value → Bool
  | .object [] => true
  | v => v.isNull

def keyAlgorithms : List String := algorithms ++ ["RSA1_5", "RSA-OAEP", "RSA-OAEP-256"]

def curves : List String := ["P-256", "P-384", "P-521", "Ed25519"]

def commonLayout : Layout :=
  ⟨["use", "key_ops", "alg", "kid", "x5u", "x5c", "x5t", "x5t#S256"].map
    (·, .optional), false, true⟩

def isCommon (v : Value) : Bool :=
  match commonLayout.read v with
  | some fields =>
    ["use", "kid", "x5u", "x5t", "x5t#S256"].all (holds · Value.asString fields) &&
      ["key_ops", "x5c"].all (holds · asStrings fields) &&
      holds "alg" (Value.asName isBare keyAlgorithms) fields
  | none => false

/-- The families of keys: their name, whether they have a curve, and their texts. -/
def families : List (String × Bool × List String) :=
  [("EC", true, ["x", "y"]), ("RSA", false, ["n", "e"]), ("oct", false, ["k"]),
    ("OKP", true, ["x"])]

def isOfFamily (v : Value) (family : String × Bool × List String) : Bool :=
  let (name, curved, texts) := family
  let names := "kty" :: (if curved then ["crv"] else []) ++ texts
  match Layout.read ⟨names.map (·, .required), false, true⟩ v with
  | some fields =>
    (Value.need "kty" (Value.asName Value.isNull [name]) fields).isSome &&
      (!curved || (Value.need "crv" (Value.asName Value.isNull curves) fields).isSome) &&
      texts.all fun text => (Value.need text Value.asString fields).isSome
  | none => false

def read (v : Value) : Option Unit :=
  match v with
  | .object _ =>
    if (v.normalize (Group.depthLimit - 1)).isSome && isCommon v && families.any (isOfFamily v) then
      some ()
    else none
  | _ => none

end PublicKey

def headerLayout : Layout :=
  ⟨[("typ", .optional), ("alg", .required), ("cty", .optional), ("jku", .optional),
    ("jwk", .optional), ("kid", .optional), ("x5u", .optional), ("x5c", .optional),
    ("x5t", .optional), ("x5t#S256", .optional)], false, true⟩

def algorithmOf (v : Value) : Option String := do
  let fields ← headerLayout.read v
  let algorithm ← Value.need "alg" (Value.asName Value.isNull algorithms) fields
  if ["typ", "cty", "jku", "kid", "x5u", "x5t", "x5t#S256"].all (holds · Value.asString fields) &&
      holds "x5c" asStrings fields && holds "jwk" PublicKey.read fields then
    some algorithm
  else none

end AccessControl.Token
