import AccessControl.Identity

/-! # Scripts

The steps of a scripted session: calls on the stores, decisions, keys and tokens, contexts, the
clock, and faults of store calls. Results and contexts have names by which later steps refer to
them.
-/
namespace AccessControl.Scenario

inductive ObjectName where
  | text (s : String)
  | parts (o : ObjectRef)

def ObjectName.read : ObjectName → Result ObjectRef
  | text s => ObjectRef.parse s
  | parts o => .ok o

structure GroupEntry where
  id : Option GroupId
  name : String
  ownerId : String
  parent : Option GroupId
  description : String
  metadata : Metadata
  created : Option Instant

structure PolicyEntry where
  id : Option String
  kind : String
  subject : String
  object : ObjectName
  action : String

/-- An object and an action that a set of policies is asked about. -/
structure Probe where
  object : ObjectName
  action : String

structure ContextSpec where
  timeout : Option Millis
  cancelled : Bool
  cancelAfter : Option Millis
  bounded : Option Millis

inductive ContextName where
  | background
  | stored (name : String)
  | made (spec : ContextSpec)

/-- What a key is asked to say, with its lifetime in nanoseconds. -/
structure RequestEntry where
  subject : String
  keyType : Option KeyType
  id : Option String
  issuer : Option String
  email : Option String
  issuedAt : Option Instant
  expiresAt : Option Instant
  lifetimes : List Lifetime

/-- The request at a moment, where each lifetime given sets the expiry anew. -/
def RequestEntry.request (r : RequestEntry) (now : Instant) : KeyRequest :=
  r.lifetimes.foldl KeyRequest.expiresIn
    ⟨r.subject, r.issuer.getD "", r.email, r.id, r.keyType, r.issuedAt.getD now, r.expiresAt⟩

inductive Step where
  | save (g : GroupEntry)
  | update (g : GroupEntry)
  | get (id : GroupId)
  | byName (name : String)
  | delete (id : GroupId)
  | children (id : GroupId)
  | parents (id : GroupId)
  | descendants (id : GroupId)
  | memberships (member : String)
  | assign (member : String) (id : GroupId)
  | unassign (member : String) (id : GroupId)
  | members (id : GroupId)
  | grant (p : PolicyEntry)
  | revoke (p : PolicyEntry)
  | revokeAll (kind subject : String)
  | policies (kind subject : String) (object : Option ObjectName) (probes : Option (List Probe))
  | policyCount
  | authorize (kind : Option String) (subject : String) (object : ObjectName) (action : String)
      (ctx : ContextName)
  | deleteGroup (id : GroupId) (ctx : ContextName)
  | sign (r : RequestEntry) (secret : Option String) (name : String)
  | login (subject : String) (email : Option String) (name : String)
  | recovery (subject : String) (email : Option String) (name : String)
  | issueApi (token : String) (lifetime : Option Nat) (ctx : ContextName) (name : String)
  | keySave (name : String)
  | keyGet (issuer key : String)
  | keyRemove (issuer key : String)
  | retrieveKey (token key : String) (ctx : ContextName)
  | revokeKey (token key : String) (ctx : ContextName)
  | identify (token : String) (ctx : ContextName)
  | verify (token : String) (object : ObjectName) (action : String) (ctx : ContextName)
  | lifetimes (l : Lifetimes)
  | context (name : String) (ctx : ContextName)
  | contextFrom (name source : String) (bounded : Option Millis)
  | contextState (ctx : ContextName)
  | cancel (ctx : ContextName)
  | advance (time : Millis)
  | run (ctx : ContextName) (wait : Option Millis) (outcome : Result Value)
  | fault (call : String) (f : Fault)
  | dump
  /-- A step that cannot be read. -/
  | unreadable (reason : String)

def callName : StoreCall → String
  | .saveGroup _ => "groups.save"
  | .updateGroup .. => "groups.update"
  | .deleteGroup _ => "groups.delete"
  | .group _ => "groups.retrieve_by_id"
  | .groupByName _ => "groups.retrieve_by_name"
  | .children _ => "groups.retrieve_all_children"
  | .ancestors _ => "groups.retrieve_all_parents"
  | .descendants _ => "groups.retrieve_descendants"
  | .assign .. => "groups.assign"
  | .unassign .. => "groups.unassign"
  | .memberships _ => "groups.memberships"
  | .members _ => "groups.members"
  | .savePolicy _ => "policies.save_policy"
  | .policies .. => "policies.retrieve_policy"
  | .removePolicy _ => "policies.remove_policy"
  | .removePolicies _ => "policies.remove_subject_policies"
  | .saveKey _ => "keys.save"
  | .key _ => "keys.retrieve"
  | .removeKey _ => "keys.remove"

end AccessControl.Scenario
