import AccessControl.Stores

/-! # Calls in place

The calls on the stores as they are carried out: checks and writes one after another on one state. A
call that fails ends where it is, and nothing that it has written until then is taken back.
-/
namespace AccessControl

/-- Steps on a state, up to the first failure. There is a state afterwards in any case. -/
def InPlace (σ α : Type) := σ → Result α × σ

namespace InPlace

variable {σ τ α β : Type}

def bind (m : InPlace σ α) (f : α → InPlace σ β) : InPlace σ β := fun s =>
  match m s with
  | (.ok a, s') => f a s'
  | (.error e, s') => (.error e, s')

instance : Monad (InPlace σ) where
  pure a := fun s => (.ok a, s)
  bind := bind

def fail (e : AuthError) : InPlace σ α := fun s => (.error e, s)

def read (f : σ → Result α) : InPlace σ α := fun s => (f s, s)

def write (f : σ → σ) : InPlace σ Unit := fun s => (.ok (), f s)

def take (f : σ → Option α) (without : σ → σ) : InPlace σ (Option α) :=
  fun s => (.ok (f s), without s)

def within (part : σ → τ) (put : σ → τ → σ) (m : InPlace τ α) : InPlace σ α := fun s =>
  ((m (part s)).1, put s (m (part s)).2)

end InPlace

open InPlace (fail read write take)

namespace GroupStore

def saveInPlace (g : Group) : InPlace GroupStore Group := do
  read fun _ => g.validate
  let s ← read .ok
  if s.groups.contains g.id then fail (.conflict s!"group id {g.id}")
  else if s.byName.contains g.name then fail (.conflict s!"group name '{g.name}'")
  else do
    read fun s => s.requireParent g.parent
    write fun s => { s with children := attach s.children g.parent g.id }
    write fun s => { s with byName := s.byName.insert g.name g.id }
    write fun s => { s with groups := s.groups.insert g.id g }
    return g

def moveInPlace (id : GroupId) (old new : Option GroupId) : InPlace GroupStore Unit := do
  read fun s => s.checkMove id new
  write fun s => { s with children := detach s.children old id }
  write fun s => { s with children := attach s.children new id }

def updateInPlace (g : Group) (now : Instant) : InPlace GroupStore Group := do
  read fun _ => g.validate
  let old ← read fun s => s.get g.id
  if old.name ≠ g.name then fail (.malformedEntity s!"group {g.id} name is immutable")
  else if old.ownerId ≠ g.ownerId then fail (.malformedEntity s!"group {g.id} owner is immutable")
  else do
    if old.parent ≠ g.parent then moveInPlace g.id old.parent g.parent
    let updated := { old with
      description := g.description
      metadata := g.metadata
      parent := g.parent
      updatedAt := now }
    write fun s => { s with groups := s.groups.insert updated.id updated }
    return updated

def deleteInPlace (id : GroupId) : InPlace GroupStore Unit := do
  let g ← read fun s => s.get id
  let s ← read .ok
  let children := (s.childrenOf id).length
  let members := (s.membersOf id).length
  if 0 < children ∨ 0 < members then fail (.hasDependents id children members)
  else do
    write fun s => { s with children := detach s.children g.parent id }
    write fun s => { s with byName := s.byName.erase g.name }
    write fun s => { s with groups := s.groups.erase id }

def assignInPlace (member : String) (id : GroupId) : InPlace GroupStore Unit :=
  if member.isEmpty then fail (.malformedEntity "member id is empty")
  else do
    let _ ← read fun s => s.get id
    write fun s => { s with members := s.members.enter id member }
    write fun s => { s with memberships := s.memberships.enter member id }

def unassignInPlace (member : String) (id : GroupId) : InPlace GroupStore Unit := do
  let _ ← read fun s => s.get id
  write fun s => { s with members := s.members.forget id member }
  write fun s => { s with memberships := s.memberships.forget member id }

end GroupStore

namespace PolicyStore

def saveInPlace (p : Policy) : InPlace PolicyStore Policy := do
  read fun _ => p.validate
  let s ← read .ok
  if s.policies.contains p.id then fail (.conflict s!"policy id {p.id}")
  else if s.byRight.contains p.right then
    fail (.conflict s!"{p.holder.text} already may {p.action} on {p.object.text}")
  else do
    write fun s => { s with byRight := s.byRight.insert p.right p.id }
    write fun s => { s with byHolder := s.byHolder.enter p.holder p.id }
    write fun s => { s with policies := s.policies.insert p.id p }
    return p

/-- The right is taken out of the index before it is known whether it is there. -/
def removeInPlace (p : Policy) : InPlace PolicyStore Unit := do
  match ← take (fun s => s.byRight.get? p.right)
      (fun s => { s with byRight := s.byRight.erase p.right }) with
  | none => fail (.notFound s!"policy {p.right.text}")
  | some id => do
    write fun s => { s with byHolder := s.byHolder.forget p.holder id }
    write fun s => { s with policies := s.policies.erase id }

def removeHeldByInPlace (holder : Principal) : InPlace PolicyStore Nat := do
  match ← take (fun s => s.byHolder.get? holder)
    (fun s => { s with byHolder := s.byHolder.erase holder }) with
  | none => return 0
  | some ids => do
    write fun s => ids.toList.foldl drop s
    return ids.toList.length

end PolicyStore

namespace KeyStore

def saveInPlace (k : Key) : InPlace KeyStore String :=
  match k.id with
  | none => fail (.malformedEntity "key has no id")
  | some id => do
    let slot : KeySlot := ⟨k.issuerId, id⟩
    let s ← read .ok
    if s.keys.contains slot then fail (.conflict s!"key {id}")
    else do
      write fun s => ⟨s.keys.insert slot k⟩
      return id

/-- The key is taken out before it is known whether it is there. -/
def removeInPlace (slot : KeySlot) : InPlace KeyStore Unit := do
  match ← take (fun s => s.keys.get? slot) (fun s => ⟨s.keys.erase slot⟩) with
  | none => fail (missing slot)
  | some _ => return ()

end KeyStore

namespace Stores

def onGroups {α : Type} (m : InPlace GroupStore α) : InPlace Stores α :=
  m.within (·.groups) fun s groups => { s with groups := groups }

def onPolicies {α : Type} (m : InPlace PolicyStore α) : InPlace Stores α :=
  m.within (·.policies) fun s policies => { s with policies := policies }

def onKeys {α : Type} (m : InPlace KeyStore α) : InPlace Stores α :=
  m.within (·.keys) fun s keys => { s with keys := keys }

end Stores

open Stores (onGroups onPolicies onKeys)

def StoreCall.inPlace : (c : StoreCall) → InPlace Stores c.Reply
  | .saveGroup g => onGroups (GroupStore.saveInPlace g)
  | .updateGroup g now => onGroups (GroupStore.updateInPlace g now)
  | .deleteGroup id => onGroups (GroupStore.deleteInPlace id)
  | .group id => onGroups (read (·.get id))
  | .groupByName name => onGroups (read (·.getByName name))
  | .children id => onGroups (read fun s => Stores.ids <$> s.retrieveChildren id)
  | .ancestors id => onGroups (read fun s => Stores.ids <$> s.retrieveAncestors id)
  | .descendants id => onGroups (read fun s => Stores.ids <$> s.retrieveDescendants id)
  | .assign member id => onGroups (GroupStore.assignInPlace member id)
  | .unassign member id => onGroups (GroupStore.unassignInPlace member id)
  | .memberships member => onGroups (read fun s => Stores.ids <$> s.retrieveMemberships member)
  | .members id => onGroups (read (·.retrieveMembers id))
  | .savePolicy p => onPolicies (PolicyStore.saveInPlace p)
  | .policies holder object => onPolicies (read fun s => .ok (s.retrieve holder object))
  | .removePolicy p => onPolicies (PolicyStore.removeInPlace p)
  | .removePolicies holder => onPolicies (PolicyStore.removeHeldByInPlace holder)
  | .saveKey k => onKeys (KeyStore.saveInPlace k)
  | .key slot => onKeys (read (·.retrieve slot))
  | .removeKey slot => onKeys (KeyStore.removeInPlace slot)

def Stores.inPlaceAll (s : Stores) (calls : List StoreCall) : Stores :=
  calls.foldl (fun s c => (c.inPlace s).2) s

end AccessControl
