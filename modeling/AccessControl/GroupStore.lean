import AccessControl.Group
import AccessControl.Dict

/-! # The group store

Groups form a forest. Beside the groups the store keeps an index by name, the children of each group
in the order in which they came to it, and the memberships from both sides. No index holds an empty
entry.
-/
namespace AccessControl

structure GroupStore where
  groups : Dict GroupId Group
  byName : Dict String GroupId
  children : Dict GroupId (List GroupId)
  members : Dict GroupId TextSet
  memberships : Dict String TextSet

namespace GroupStore

def empty : GroupStore := ⟨.empty, .empty, .empty, .empty, .empty⟩

def get (s : GroupStore) (id : GroupId) : Result Group :=
  match s.groups.get? id with
  | some g => .ok g
  | none => .error (.notFound s!"group {id}")

def getByName (s : GroupStore) (name : String) : Result Group :=
  match s.byName.get? name with
  | some id => s.get id
  | none => .error (.notFound s!"group named '{name}'")

def childrenOf (s : GroupStore) (id : GroupId) : List GroupId := (s.children.get? id).getD []

def membersOf (s : GroupStore) (id : GroupId) : List String := s.members.elements id

def groupsOf (s : GroupStore) (member : String) : List GroupId := s.memberships.elements member

/-- Follows parents upward from a cursor. A chain without repeats has at most as many groups as are
stored, so running out of steps means the same as meeting a group again. -/
def climb (s : GroupStore) (start : GroupId) :
    Nat → List GroupId → Option GroupId → Result (List GroupId)
  | _, _, none => .ok []
  | 0, _, some p => .error (.corruptHierarchy start s!"ancestor chain revisits {p}")
  | steps + 1, seen, some p =>
    if p ∈ seen then .error (.corruptHierarchy start s!"ancestor chain revisits {p}")
    else
      match s.groups.get? p with
      | none => .error (.corruptHierarchy start s!"dangling parent reference {p}")
      | some g => do return p :: (← s.climb start steps (p :: seen) g.parent)

def ancestors (s : GroupStore) (id : GroupId) : Result (List GroupId) := do
  let g ← s.get id
  s.climb id s.groups.size [id] g.parent

def collect (s : GroupStore) (start : GroupId) (found : List GroupId) :
    List GroupId → Result (List GroupId)
  | [] => .ok found
  | c :: rest =>
    if c ∈ start :: found ∨ s.groups.size ≤ found.length then
      .error (.corruptHierarchy start s!"descendant walk revisits {c}")
    else s.collect start (found ++ [c]) rest

/-- Goes through the groups in a queue and appends their children to it. -/
def spread (s : GroupStore) (start : GroupId) :
    Nat → List GroupId → List GroupId → Result (List GroupId)
  | 0, found, _ => .ok found
  | _ + 1, found, [] => .ok found
  | steps + 1, found, g :: queue => do
    let more ← s.collect start found (s.childrenOf g)
    s.spread start steps more (queue ++ s.childrenOf g)

def descendants (s : GroupStore) (id : GroupId) : Result (List GroupId) := do
  let _ ← s.get id
  s.spread id (s.groups.size + 1) [] [id]

def resolve (s : GroupStore) : List GroupId → Result (List Group)
  | [] => .ok []
  | id :: rest =>
    match s.groups.get? id with
    | some g => do return g :: (← s.resolve rest)
    | none => .error (.corruptHierarchy id "indexed group is missing")

def retrieveChildren (s : GroupStore) (id : GroupId) : Result (List Group) := do
  let _ ← s.get id
  s.resolve (s.childrenOf id)

def retrieveAncestors (s : GroupStore) (id : GroupId) : Result (List Group) := do
  s.resolve (← s.ancestors id)

def retrieveDescendants (s : GroupStore) (id : GroupId) : Result (List Group) := do
  s.resolve (← s.descendants id)

/-- The groups that a member was assigned to, in order of identifier. -/
def retrieveMemberships (s : GroupStore) (member : String) : Result (List Group) :=
  s.resolve (s.groupsOf member)

def retrieveMembers (s : GroupStore) (id : GroupId) : Result (List String) := do
  let _ ← s.get id
  return s.membersOf id

def requireParent (s : GroupStore) : Option GroupId → Result Unit
  | some p =>
    if s.groups.contains p then .ok () else .error (.notFound s!"parent group {p}")
  | none => .ok ()

def attach (children : Dict GroupId (List GroupId)) (parent : Option GroupId) (child : GroupId) :
    Dict GroupId (List GroupId) :=
  match parent with
  | some p => children.insert p ((children.get? p).getD [] ++ [child])
  | none => children

def detach (children : Dict GroupId (List GroupId)) (parent : Option GroupId) (child : GroupId) :
    Dict GroupId (List GroupId) :=
  match parent with
  | some p =>
    match children.get? p with
    | some siblings =>
      let left := siblings.filter (· != child)
      if left.isEmpty then children.erase p else children.insert p left
    | none => children
  | none => children

def save (s : GroupStore) (g : Group) : Result GroupStore := do
  g.validate
  if s.groups.contains g.id then .error (.conflict s!"group id {g.id}")
  else if s.byName.contains g.name then .error (.conflict s!"group name '{g.name}'")
  else
    s.requireParent g.parent
    return { s with
      groups := s.groups.insert g.id g
      byName := s.byName.insert g.name g.id
      children := attach s.children g.parent g.id }

/-- Refuses a new parent that does not exist or lies below the group. -/
def checkMove (s : GroupStore) (id : GroupId) : Option GroupId → Result Unit
  | some p => do
    s.requireParent (some p)
    let above ← s.ancestors p
    if id ∈ above ++ [p] then
      .error (.malformedEntity s!"moving group {id} under {p} would create a cycle")
    else return ()
  | none => .ok ()

/-- Changes the parent, description and metadata of a group at a moment; answers the group as
stored. -/
def update (s : GroupStore) (g : Group) (now : Instant) : Result (Group × GroupStore) := do
  g.validate
  let old ← s.get g.id
  if old.name ≠ g.name then .error (.malformedEntity s!"group {g.id} name is immutable")
  else if old.ownerId ≠ g.ownerId then
    .error (.malformedEntity s!"group {g.id} owner is immutable")
  else
    let moved := old.parent ≠ g.parent
    if moved then s.checkMove g.id g.parent
    let updated := { old with
      description := g.description
      metadata := g.metadata
      parent := g.parent
      updatedAt := now }
    let children :=
      if moved then attach (detach s.children old.parent g.id) g.parent g.id else s.children
    return (updated, { s with groups := s.groups.insert g.id updated, children := children })

/-- Removes a group without children and members. -/
def delete (s : GroupStore) (id : GroupId) : Result GroupStore := do
  let g ← s.get id
  let children := (s.childrenOf id).length
  let members := (s.membersOf id).length
  if 0 < children ∨ 0 < members then .error (.hasDependents id children members)
  else
    return { s with
      groups := s.groups.erase id
      byName := s.byName.erase g.name
      children := detach s.children g.parent id }

def assign (s : GroupStore) (member : String) (id : GroupId) : Result GroupStore := do
  if member.isEmpty then .error (.malformedEntity "member id is empty")
  else
    let _ ← s.get id
    return { s with
      members := s.members.enter id member
      memberships := s.memberships.enter member id }

def unassign (s : GroupStore) (member : String) (id : GroupId) : Result GroupStore := do
  let _ ← s.get id
  return { s with
    members := s.members.forget id member
    memberships := s.memberships.forget member id }

end GroupStore
end AccessControl
