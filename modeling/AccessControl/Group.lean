import AccessControl.Calendar.Text
import AccessControl.Subject
import AccessControl.Text.Blank

/-! # Groups

A group may have one parent. Members of a group share in what is granted to it and to the groups
above it.
-/
namespace AccessControl

abbrev GroupId := String

abbrev Metadata := List (String × Value)

structure Group where
  id : GroupId
  ownerId : String
  parent : Option GroupId
  name : String
  description : String
  metadata : Metadata
  createdAt : Instant
  updatedAt : Instant

namespace Group

def isRoot (g : Group) : Bool := g.parent.isNone

def principal (id : GroupId) : Principal := ⟨.group, id⟩

def validate (g : Group) : Result Unit :=
  if g.id.isEmpty then .error (.malformedEntity "group id is empty")
  else if Text.isBlank g.name then .error (.malformedEntity "group name is empty")
  else if g.parent = some g.id then
    .error (.malformedEntity s!"group {g.id} cannot be its own parent")
  else .ok ()

def toValue (g : Group) : Value :=
  let parent := match g.parent with
    | some p => [("parent_id", Value.string p)]
    | none => []
  .object ([("id", .string g.id), ("owner_id", .string g.ownerId)] ++ parent ++
    [("name", .string g.name), ("description", .string g.description),
      ("metadata", .object g.metadata), ("created_at", .string g.createdAt.text),
      ("updated_at", .string g.updatedAt.text)])

def layout : Layout :=
  ⟨[("id", .required), ("owner_id", .required), ("parent_id", .defaulted), ("name", .required),
    ("description", .defaulted), ("metadata", .defaulted), ("created_at", .required),
    ("updated_at", .required)], false, true⟩

def depthLimit : Nat := 127

def metadataOf (depth : Nat) : Value → Option Metadata
  | .object fields =>
    match (Value.object fields).normalize depth with
    | some (.object sorted) => some sorted
    | _ => none
  | _ => none

def asInstant (v : Value) : Option Instant := v.asString.bind Instant.read

def ofValue (v : Value) : Option Group := do
  let fields ← layout.read v
  let id ← Value.need "id" Value.asString fields
  let ownerId ← Value.need "owner_id" Value.asString fields
  let parent ← Value.orElse "parent_id" (Value.asOption Value.asString) none fields
  let name ← Value.need "name" Value.asString fields
  let description ← Value.orElse "description" Value.asString "" fields
  let metadata ← Value.orElse "metadata" (metadataOf (depthLimit - 1)) [] fields
  let createdAt ← Value.need "created_at" asInstant fields
  let updatedAt ← Value.need "updated_at" asInstant fields
  return ⟨id, ownerId, parent, name, description, metadata, createdAt, updatedAt⟩

end Group
end AccessControl
