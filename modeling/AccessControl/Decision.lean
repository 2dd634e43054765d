import AccessControl.Timed

/-! # Decisions

A request is allowed when its subject holds the right itself, or when a group that the subject
belongs to holds it, directly or through a group below. Everything else is denied, and a store that
cannot be read is an error instead.
-/
namespace AccessControl

structure AccessRequest where
  subject : Principal
  object : ObjectRef
  action : String
  deriving DecidableEq, Repr

inductive Grant where
  /-- The subject holds the policy itself. -/
  | direct (policyId : String)
  /-- A group holds the policy. -/
  | viaGroup (group : GroupId) (policyId : String)
  deriving DecidableEq, Repr

namespace Grant

def policyId : Grant → String
  | direct id => id
  | viaGroup _ id => id

def text : Grant → String
  | direct id => s!"direct policy {id}"
  | viaGroup group id => s!"policy {id} via group {group}"

end Grant

inductive Decision where
  | allow (g : Grant)
  | deny
  deriving DecidableEq, Repr

namespace Decision

def isAllowed : Decision → Bool
  | allow _ => true
  | deny => false

def grant? : Decision → Option Grant
  | allow g => some g
  | deny => none

def text : Decision → String
  | allow g => s!"allow ({g.text})"
  | deny => "deny"

def toValue : Decision → Value
  | allow (.direct id) =>
    .object [("decision", .string "allow"), ("via", .string "direct"), ("policy_id", .string id)]
  | allow (.viaGroup group id) =>
    .object [("decision", .string "allow"), ("via", .string "group"), ("group_id", .string group),
      ("policy_id", .string id)]
  | deny => .object [("decision", .string "deny")]

end Decision

namespace AccessRequest

def addNew (found more : List GroupId) : List GroupId :=
  more.foldl (fun found g => if g ∈ found then found else found ++ [g]) found

/-- Adds the groups above each seed. A group that no longer exists has nothing above it. -/
def climb : List GroupId → List GroupId → Program (List GroupId)
  | found, [] => .done (.ok found)
  | found, g :: seeds =>
    .call (.ancestors g) fun r =>
      match r with
      | .ok above => climb (addNew found above) seeds
      | .error (.notFound _) => climb found seeds
      | .error e => .done (.error e)

/-- The groups whose rights a subject shares, each once: those it was assigned to and then those
above them. A group shares the rights of the groups above it. -/
def inheritedGroups (subject : Principal) : Program (List GroupId) :=
  match subject.kind with
  | .group => do
    let found ← climb [subject.id] [subject.id]
    return found.drop 1
  | .user | .thing =>
    .call (.memberships subject.id) fun r =>
      match r with
      | .ok seeds => climb (addNew [] seeds) seeds
      | .error e => .done (.error e)

/-- Looks for a policy that a holder has on the object for the action. -/
def lookFor (r : AccessRequest) (holder : Principal) : Program (Option String) := do
  let held ← Program.ask (.policies holder (some r.object))
  return (held.grantFor r.object r.action).map (·.id)

def searchGroups (r : AccessRequest) : List GroupId → Program Decision
  | [] => .done (.ok .deny)
  | g :: rest => do
    match ← r.lookFor (Group.principal g) with
    | some id => return .allow (.viaGroup g id)
    | none => r.searchGroups rest

def decision (r : AccessRequest) : Program Decision := do
  match ← r.lookFor r.subject with
  | some id => return .allow (.direct id)
  | none => r.searchGroups (← inheritedGroups r.subject)

end AccessRequest

/-- Removes a group and then the policies that it held; answers how many there were. -/
def deleteGroup (id : GroupId) : Program Nat := do
  Program.ask (.deleteGroup id)
  Program.ask (.removePolicies (Group.principal id))

/-- Decides requests within a time limit of its own for callers who set no deadline. -/
structure Engine where
  decisionTimeout : Option Millis

namespace Engine

/-- The caller's context, with the engine's limit where the caller has none. -/
def effective (e : Engine) (ctx : Context) (now : Millis) : Context :=
  match ctx.deadline, e.decisionTimeout with
  | none, some limit => ctx.boundedBy now limit
  | _, _ => ctx

def authorize (e : Engine) (conditions : Conditions) (ctx : Context) (r : AccessRequest) :
    Timed Decision := fun w =>
  r.decision.perform conditions (e.effective ctx w.now) w

def deleteGroup (conditions : Conditions) (ctx : Context) (id : GroupId) : Timed Nat :=
  (AccessControl.deleteGroup id).perform conditions ctx

end Engine
end AccessControl
