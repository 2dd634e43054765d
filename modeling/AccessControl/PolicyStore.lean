import AccessControl.PolicySet

/-! # The policy store

Policies under their identifiers, with an index by right and one by holder. No two stored policies
have the same right.
-/
namespace AccessControl

structure PolicyStore where
  policies : Dict String Policy
  byRight : Dict Right String
  byHolder : Dict Principal TextSet

namespace PolicyStore

def empty : PolicyStore := ⟨.empty, .empty, .empty⟩

def heldBy (s : PolicyStore) (holder : Principal) : List String := s.byHolder.elements holder

def save (s : PolicyStore) (p : Policy) : Result PolicyStore := do
  p.validate
  if s.policies.contains p.id then .error (.conflict s!"policy id {p.id}")
  else if s.byRight.contains p.right then
    .error (.conflict
      s!"{p.holder.text} already may {p.action} on {p.object.text}")
  else
    return ⟨s.policies.insert p.id p, s.byRight.insert p.right p.id, s.byHolder.enter p.holder p.id⟩

/-- The policies of a subject, all of them or those on one object. -/
def retrieve (s : PolicyStore) (holder : Principal) (object : Option ObjectRef) : PolicySet :=
  let held := (s.heldBy holder).filterMap s.policies.get?
  PolicySet.ofList (held.filter fun p => object.all (· == p.object))

/-- Removes the stored policy with the right of the given one, whatever the identifier of either. -/
def remove (s : PolicyStore) (p : Policy) : Result PolicyStore :=
  match s.byRight.get? p.right with
  | none => .error (.notFound s!"policy {p.right.text}")
  | some id =>
    .ok ⟨s.policies.erase id, s.byRight.erase p.right, s.byHolder.forget p.holder id⟩

def drop (s : PolicyStore) (id : String) : PolicyStore :=
  match s.policies.get? id with
  | some p => { s with policies := s.policies.erase id, byRight := s.byRight.erase p.right }
  | none => s

/-- Removes all policies of a subject and answers how many there were. -/
def removeHeldBy (s : PolicyStore) (holder : Principal) : Nat × PolicyStore :=
  let ids := s.heldBy holder
  (ids.length, ids.foldl drop { s with byHolder := s.byHolder.erase holder })

def size (s : PolicyStore) : Nat := s.policies.size

end PolicyStore
end AccessControl
