import AccessControl.GroupStore
import AccessControl.PolicyStore
import AccessControl.KeyStore

/-! # The stores and the calls on them

One group store, one policy store and one key store, and every call that can be made on them with
the type of its reply. A call that fails changes nothing.
-/
namespace AccessControl

structure Stores where
  groups : GroupStore
  policies : PolicyStore
  keys : KeyStore

inductive StoreCall where
  | saveGroup (g : Group)
  | updateGroup (g : Group) (now : Instant)
  | deleteGroup (id : GroupId)
  | group (id : GroupId)
  | groupByName (name : String)
  | children (id : GroupId)
  | ancestors (id : GroupId)
  | descendants (id : GroupId)
  | assign (member : String) (id : GroupId)
  | unassign (member : String) (id : GroupId)
  | memberships (member : String)
  | members (id : GroupId)
  | savePolicy (p : Policy)
  | policies (holder : Principal) (object : Option ObjectRef)
  | removePolicy (p : Policy)
  | removePolicies (holder : Principal)
  | saveKey (k : Key)
  | key (slot : KeySlot)
  | removeKey (slot : KeySlot)

namespace StoreCall

/-- The type of the reply to a call. Groups are listed by their identifiers. -/
abbrev Reply : StoreCall → Type
  | saveGroup _ | updateGroup .. | group _ | groupByName _ => Group
  | deleteGroup _ | assign .. | unassign .. | removePolicy _ | removeKey _ => Unit
  | children _ | ancestors _ | descendants _ | memberships _ => List GroupId
  | members _ => List String
  | savePolicy _ => Policy
  | policies .. => PolicySet
  | removePolicies _ => Nat
  | saveKey _ => String
  | key _ => Key

end StoreCall

namespace Stores

def empty : Stores := ⟨.empty, .empty, .empty⟩

def ids (gs : List Group) : List GroupId := gs.map (·.id)

def serve (s : Stores) : (c : StoreCall) → Result (c.Reply × Stores)
  | .saveGroup g => do return (g, { s with groups := ← s.groups.save g })
  | .updateGroup g now => do
    let (updated, groups) ← s.groups.update g now
    return (updated, { s with groups := groups })
  | .deleteGroup id => do return ((), { s with groups := ← s.groups.delete id })
  | .group id => do return (← s.groups.get id, s)
  | .groupByName name => do return (← s.groups.getByName name, s)
  | .children id => do return (ids (← s.groups.retrieveChildren id), s)
  | .ancestors id => do return (ids (← s.groups.retrieveAncestors id), s)
  | .descendants id => do return (ids (← s.groups.retrieveDescendants id), s)
  | .assign member id => do return ((), { s with groups := ← s.groups.assign member id })
  | .unassign member id => do return ((), { s with groups := ← s.groups.unassign member id })
  | .memberships member => do return (ids (← s.groups.retrieveMemberships member), s)
  | .members id => do return (← s.groups.retrieveMembers id, s)
  | .savePolicy p => do return (p, { s with policies := ← s.policies.save p })
  | .policies holder object => .ok (s.policies.retrieve holder object, s)
  | .removePolicy p => do return ((), { s with policies := ← s.policies.remove p })
  | .removePolicies holder =>
    let (count, policies) := s.policies.removeHeldBy holder
    .ok (count, { s with policies := policies })
  | .saveKey k => do
    let (id, keys) ← s.keys.save k
    return (id, { s with keys := keys })
  | .key slot => do return (← s.keys.retrieve slot, s)
  | .removeKey slot => do return ((), { s with keys := ← s.keys.remove slot })

end Stores
end AccessControl
