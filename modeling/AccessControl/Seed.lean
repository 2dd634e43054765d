import AccessControl.Environment
import AccessControl.Stores
import AccessControl.Toml.Document

/-! # Seeds

A seed is a document of groups, memberships and policies. Its records are put into stores one after
another, groups first and in the order of the document, and the first that is refused ends the work.
-/
namespace AccessControl

structure SeedGroup where
  id : Option GroupId
  name : String
  ownerId : String
  parent : Option GroupId
  description : String
  metadata : Metadata

structure SeedMembership where
  member : String
  group : GroupId

structure SeedPolicy where
  holder : Principal
  /-- The text of the object, not yet read. -/
  object : String
  action : String

structure Seed where
  groups : List SeedGroup
  memberships : List SeedMembership
  policies : List SeedPolicy

inductive SeedError where
  | invalid
  | unreadable (path : String)
  /-- A record was refused; the text says which, where that is not clear. -/
  | refused (record : Option String) (e : AuthError)
  deriving DecidableEq, Repr

namespace SeedError

def headline : SeedError → String
  | invalid => "invalid seed file"
  | unreadable path => s!"failed to read seed file {path}"
  | refused (some record) _ => record
  | refused none e => e.message

def cause : SeedError → Option String
  | refused (some _) e => some e.message
  | _ => none

def message (e : SeedError) : String :=
  match e.cause with
  | some cause => s!"{e.headline}: {cause}"
  | none => e.headline

end SeedError

def isEmptyContent : Value → Bool
  | .array items => items.isEmpty
  | .object fields => fields.isEmpty
  | _ => false

/-- More levels than a document of TOML can have: every level of a value may have a key of many
parts. -/
def seedDepth : Nat := Toml.nestingLimit * (Toml.nestingLimit + 2)

def SeedGroup.ofValue (v : Value) : Option SeedGroup := do
  let fields ← Layout.read
    ⟨[("id", .optional), ("name", .required), ("owner_id", .defaulted), ("parent_id", .optional),
      ("description", .defaulted), ("metadata", .defaulted)], true, false⟩ v
  let id ← Value.orElse "id" (Value.asOption Value.asString) none fields
  let name ← Value.need "name" Value.asString fields
  let ownerId ← Value.orElse "owner_id" Value.asString "" fields
  let parent ← Value.orElse "parent_id" (Value.asOption Value.asString) none fields
  let description ← Value.orElse "description" Value.asString "" fields
  let metadata ← Value.orElse "metadata" (Group.metadataOf seedDepth) [] fields
  return ⟨id, name, ownerId, parent, description, metadata⟩

def SeedMembership.ofValue (v : Value) : Option SeedMembership := do
  let fields ← Layout.read ⟨[("member", .required), ("group", .required)], true, false⟩ v
  return ⟨← Value.need "member" Value.asString fields, ← Value.need "group" Value.asString fields⟩

def SeedPolicy.ofValue (v : Value) : Option SeedPolicy := do
  let fields ← Layout.read
    ⟨[("subject_type", .required), ("subject_id", .required), ("object", .required),
      ("action", .required)], true, false⟩ v
  let kind ← Value.need "subject_type" (SubjectType.ofValue isEmptyContent) fields
  let subject ← Value.need "subject_id" Value.asString fields
  let object ← Value.need "object" Value.asString fields
  let action ← Value.need "action" Value.asString fields
  return ⟨⟨kind, subject⟩, object, action⟩

def asRecords {α : Type} (f : Value → Option α) : Value → Option (List α)
  | .array items => items.mapM f
  | _ => none

namespace Seed

def ofValue (v : Value) : Option Seed := do
  let fields ← Layout.read
    ⟨[("groups", .defaulted), ("memberships", .defaulted), ("policies", .defaulted)], true, false⟩ v
  let groups ← Value.orElse "groups" (asRecords SeedGroup.ofValue) [] fields
  let memberships ← Value.orElse "memberships" (asRecords SeedMembership.ofValue) [] fields
  let policies ← Value.orElse "policies" (asRecords SeedPolicy.ofValue) [] fields
  return ⟨groups, memberships, policies⟩

def parse (text : String) : Except SeedError Seed :=
  match (Toml.read text).bind ofValue with
  | some seed => .ok seed
  | none => .error .invalid

def ofFile (e : Environment) (path : String) : Except SeedError Seed :=
  match e.readText path with
  | some text => parse text
  | none => .error (.unreadable path)

/-- A store call for a record, if the record can be read, and how the record is named when it is
refused. -/
structure Step where
  record : Option String
  call : Result StoreCall

def groupStep (fresh : Nat → String) (now : Instant) (i : Nat) (g : SeedGroup) : Step :=
  ⟨some s!"failed to seed group '{g.name}'",
    .ok (.saveGroup
      ⟨g.id.getD (fresh i), g.ownerId, g.parent, g.name, g.description, g.metadata, now, now⟩)⟩

def membershipStep (m : SeedMembership) : Step :=
  ⟨some s!"failed to assign '{m.member}' to '{m.group}'", .ok (.assign m.member m.group)⟩

def policyStep (fresh : Nat → String) (i : Nat) (p : SeedPolicy) : Step :=
  match ObjectRef.parse p.object with
  | .ok object =>
    ⟨some s!"failed to seed policy on '{p.object}'",
      .ok (.savePolicy ⟨fresh i, ⟨p.holder, object, p.action⟩⟩)⟩
  | .error e => ⟨none, .error e⟩

/-- The calls that a seed stands for. Groups without an identifier and all policies get fresh
ones. -/
def steps (s : Seed) (fresh : Nat → String) (now : Instant) : List Step :=
  s.groups.mapIdx (groupStep fresh now) ++ s.memberships.map membershipStep ++
    s.policies.mapIdx fun i p => policyStep fresh (s.groups.length + i) p

def follow (stores : Stores) : List Step → Except SeedError Unit × Stores
  | [] => (.ok (), stores)
  | step :: rest =>
    match step.call with
    | .error e => (.error (.refused step.record e), stores)
    | .ok call =>
      match stores.serve call with
      | .ok (_, stores) => follow stores rest
      | .error e => (.error (.refused step.record e), stores)

def apply (s : Seed) (fresh : Nat → String) (now : Instant) (stores : Stores) :
    Except SeedError Unit × Stores :=
  follow stores (s.steps fresh now)

end Seed
end AccessControl
