import AccessControl.Key
import AccessControl.Dict

/-! # The key store

Keys on record, under the issuer that asked for them and their identifier.
-/
namespace AccessControl

structure KeySlot where
  issuerId : String
  keyId : String
  deriving DecidableEq

instance : Indexed KeySlot where
  parts k := [k.issuerId, k.keyId]
  parts_inj {a b} h := by
    cases a; cases b
    simp only [List.cons.injEq, and_true] at h
    simp [h.1, h.2]

structure KeyStore where
  keys : Dict KeySlot Key

namespace KeyStore

def empty : KeyStore := ⟨.empty⟩

def missing (slot : KeySlot) : AuthError := .notFound s!"key {slot.keyId} issued by {slot.issuerId}"

def save (s : KeyStore) (k : Key) : Result (String × KeyStore) :=
  match k.id with
  | none => .error (.malformedEntity "key has no id")
  | some id =>
    let slot : KeySlot := ⟨k.issuerId, id⟩
    if s.keys.contains slot then .error (.conflict s!"key {id}")
    else .ok (id, ⟨s.keys.insert slot k⟩)

def retrieve (s : KeyStore) (slot : KeySlot) : Result Key :=
  match s.keys.get? slot with
  | some k => .ok k
  | none => .error (missing slot)

def remove (s : KeyStore) (slot : KeySlot) : Result KeyStore :=
  if s.keys.contains slot then .ok ⟨s.keys.erase slot⟩ else .error (missing slot)

end KeyStore
end AccessControl
