import AccessControl.Scenario.State

/-! # Sessions

Runs the steps of a script one after another on fresh stores. Store calls take no time but for their
faults, and a call that nobody answers ends its step after a day.
-/
namespace AccessControl.Scenario

def texts (ts : List String) : Value := .array (ts.map .string)

/-- Policies by the type and the identifier of their object and by their own identifier. -/
def sortPolicies (ps : List Policy) : List Policy :=
  let key := fun (p : Policy) => [p.object.objectType, p.object.objectId, p.id]
  ps.mergeSort fun a b => !(decide (key b < key a))

def policyList (s : PolicySet) : Value := .array ((sortPolicies s.toList).map Policy.toValue)

def probeValue (s : PolicySet) (p : ObjectRef × String) : Value :=
  .object [("count", .int (s.on p.1).length),
    ("grant", ((s.grantFor p.1 p.2).map fun g => Value.string g.id).getD .null),
    ("allows", .bool (s.allows p.1 p.2))]

def sizeFields (size : Nat) (isEmpty : Bool) : List (String × Value) :=
  [("len", .int size), ("empty", .bool isEmpty)]

def policiesValue (s : PolicySet) (probes : Option (List (ObjectRef × String))) : Value :=
  .object (sizeFields s.size s.isEmpty ++
    [("object_types", texts s.objectTypes), ("policies", policyList s)] ++
    match probes with
    | some ps => [("probes", .array (ps.map (probeValue s)))]
    | none => [])

def decisionValue (d : Decision) : Value :=
  .object [("decision", d.toValue), ("text", .string d.text), ("allowed", .bool d.isAllowed),
    ("policy", (d.grant?.map fun g => Value.string g.policyId).getD .null)]

def issuedValue (issued : Key × String) : Value :=
  .object [("key", issued.1.toValue), ("parts", .int (issued.2.toList.count '.' + 1))]

def lifetimesValue (l : Lifetimes) : Value :=
  .object [("user", .int l.user), ("recovery", .int l.recovery),
    ("api", (l.api.map fun n => Value.int n).getD .null)]

def readProbe (p : Probe) : Result (ObjectRef × String) := do return (← p.object.read, p.action)

def namedIds (r : Result (List Group)) : Value :=
  texts (((r.toOption.getD []).map (·.id)))

def groupView (s : GroupStore) (id : GroupId) : Option Value :=
  match s.get id with
  | .ok g =>
    some (.object [("id", .string g.id), ("name", .string g.name),
      ("parents", namedIds (s.retrieveAncestors id)),
        ("children", namedIds (s.retrieveChildren id)),
      ("descendants", namedIds (s.retrieveDescendants id)), ("members", texts (s.membersOf id))])
  | .error _ => none

def membershipView (s : GroupStore) (member : String) : Value :=
  .array [.string member, namedIds (s.retrieveMemberships member)]

def holderView (s : PolicyStore) (holder : Principal) : Value :=
  .array [.string holder.kind.name, .string holder.id, policyList (s.retrieve holder none)]

/-- Holders by type, users first and things last, and then by name. -/
def holders (s : State) : List Principal :=
  SubjectType.all.flatMap fun kind => s.holdersNamed.keys.filter fun p => p.kind == kind

def dump (s : State) : Value :=
  let stores := s.world.stores
  .object [("groups", .array (s.groupsNamed.toList.filterMap (groupView stores.groups))),
    ("memberships", .array (s.membersNamed.toList.map (membershipView stores.groups))),
    ("policies", .array ((holders s).map (holderView stores.policies))),
    ("policy_count", .int stores.policies.size)]

/-- The session after a run under a context that led to a world, with the failure if there was
one. -/
def settleRun (s : State) (ctx : Context) (w : World) (failure : Option AuthError) : State :=
  let start := s.world.now
  ({ s with world := w }).settle start
    (failure == some AuthError.deadlineExceeded && ctx.givesUp start w.now)

def runTimed {α : Type} (s : State) (ctx : Context) (run : Timed α)
    (encode : α → State → Reply × State) : Answer × State :=
  match run s.world with
  | (none, w) => (.of .unanswered, settleRun s ctx w none)
  | (some (.error e), w) => (.of (.failed e), settleRun s ctx w (some e))
  | (some (.ok a), w) =>
    let (reply, s) := encode a (settleRun s ctx w none)
    (.of reply, s)

def perform {α : Type} (s : State) (ctx : Context) (p : Program α) (encode : α → Reply) :
    Answer × State :=
  runTimed s ctx (p.perform s.conditions ctx) fun a s => (encode a, s)

def call (s : State) (c : StoreCall) (encode : c.Reply → Reply) : Answer × State :=
  perform s .background (Program.ask c) encode

def valueOf {α : Type} (f : α → Value) (a : α) : Reply := .value (f a)

def doneOf {α : Type} (_ : α) : Reply := .done

def groupOf (g : GroupEntry) (id : GroupId) (clock : Instant) : Group :=
  let created := g.created.getD clock
  ⟨id, g.ownerId, g.parent, g.name, g.description, g.metadata, created, created⟩

def withResult {α : Type} (s : State) (r : Result α) (f : α → Answer × State) : Answer × State :=
  match r with
  | .ok a => f a
  | .error e => (.of (.failed e), s)

def withContext (s : State) (name : ContextName) (f : Context → Answer × State) : Answer × State :=
  match s.context? name with
  | some c => f c
  | none => (.of (.unusable "no such ctx"), s)

def withToken (s : State) (text : String) (f : String → Answer × State) : Answer × State :=
  match s.token? text with
  | .ok token => f token
  | .error reason => (.of (.unusable reason), s)

def remember (s : State) (name : String) (r : Result (Key × String)) : Answer × State :=
  withResult s r fun issued =>
    (.of (.value (issuedValue issued)), { s with issued := s.issued.insert name issued })

def withPolicy (s : State) (p : PolicyEntry) (f : Policy → State → Answer × State) :
    Answer × State :=
  withResult s (SubjectType.parse p.kind) fun kind =>
    let holder : Principal := ⟨kind, p.subject⟩
    let s := s.nameHolder holder
    withResult s p.object.read fun object =>
      let (id, s) := s.identifier p.id
      f ⟨id, ⟨holder, object, p.action⟩⟩ s

def stepGroups (s : State) : Step → Option (Answer × State)
  | .save g =>
    let (id, s) := s.identifier g.id
    some (call (s.nameGroup id) (.saveGroup (groupOf g id s.clock)) (valueOf Group.toValue))
  | .update g =>
    let id := g.id.getD ""
    some (call (s.nameGroup id) (.updateGroup (groupOf g id s.clock) s.clock)
      (valueOf Group.toValue))
  | .get id => some (call (s.nameGroup id) (.group id) (valueOf Group.toValue))
  | .byName name => some (call s (.groupByName name) (valueOf Group.toValue))
  | .delete id => some (call (s.nameGroup id) (.deleteGroup id) doneOf)
  | .children id => some (call (s.nameGroup id) (.children id) (valueOf texts))
  | .parents id => some (call (s.nameGroup id) (.ancestors id) (valueOf texts))
  | .descendants id => some (call (s.nameGroup id) (.descendants id) (valueOf texts))
  | .memberships member => some (call (s.nameMember member) (.memberships member) (valueOf texts))
  | .assign member id =>
    some (call ((s.nameGroup id).nameMember member) (.assign member id) doneOf)
  | .unassign member id =>
    some (call ((s.nameGroup id).nameMember member) (.unassign member id) doneOf)
  | .members id => some (call (s.nameGroup id) (.members id) (valueOf texts))
  | _ => none

def stepPolicies (s : State) : Step → Option (Answer × State)
  | .grant p => some (withPolicy s p fun p s => call s (.savePolicy p) (valueOf Policy.toValue))
  | .revoke p => some (withPolicy s p fun p s => call s (.removePolicy p) doneOf)
  | .revokeAll kind subject =>
    some (withResult s (SubjectType.parse kind) fun kind =>
      let holder : Principal := ⟨kind, subject⟩
      call (s.nameHolder holder) (.removePolicies holder) (valueOf fun n => .int (n : Nat)))
  | .policies kind subject object probes =>
    some (withResult s (SubjectType.parse kind) fun kind =>
      withResult s (object.mapM ObjectName.read) fun object =>
        withResult s (probes.mapM fun ps => ps.mapM readProbe) fun probes =>
          call s (.policies ⟨kind, subject⟩ object) (valueOf fun set => policiesValue set probes))
  | .policyCount =>
    let n := s.world.stores.policies.size
    some (.of (.value (.object (sizeFields n (n == 0)))), s)
  | .authorize kind subject object action ctx =>
    some (withResult s (SubjectType.parse (kind.getD SubjectType.user.name)) fun kind =>
      withResult s object.read fun object =>
        withContext s ctx fun ctx =>
          runTimed s (s.service.engine.effective ctx s.world.now)
            (s.service.engine.authorize s.conditions ctx ⟨⟨kind, subject⟩, object, action⟩)
            fun d s => (.value (decisionValue d), s))
  | .deleteGroup id ctx =>
    let s := s.nameGroup id
    some (withContext s ctx fun ctx =>
      runTimed s ctx (Engine.deleteGroup s.conditions ctx id) fun n s => (.value (.int n), s))
  | _ => none

def stepKeys (s : State) : Step → Option (Answer × State)
  | .sign r secret name =>
    let tokenizer := (secret.map fun t => Tokenizer.mk ⟨t⟩).getD s.service.tokenizer
    some (remember s name (tokenizer.issue (r.request s.clock)))
  | .login subject email name => some (remember s name (s.service.login subject email s.clock))
  | .recovery subject email name =>
    some (remember s name (s.service.issueRecoveryKey subject email s.clock))
  | .issueApi token lifetime ctx name =>
    some (withToken s token fun token => withContext s ctx fun ctx =>
      let id := State.madeName (s.made + 1)
      let span := lifetime.map Lifetime.ofSeconds
      runTimed s ctx
        ((s.service.issueApiKey token id span s.clock s.clock).perform s.conditions ctx)
        fun issued s =>
          (.value (issuedValue issued),
            { s with issued := s.issued.insert name issued, made := s.made + 1 }))
  | .keySave name =>
    some (match s.issued.get? name with
      | some (key, _) => call s (.saveKey key) (valueOf .string)
      | none => (.of (.unusable "no such key"), s))
  | .keyGet issuer key => some (call s (.key ⟨issuer, key⟩) (valueOf Key.toValue))
  | .keyRemove issuer key => some (call s (.removeKey ⟨issuer, key⟩) doneOf)
  | .retrieveKey token key ctx =>
    some (withToken s token fun token => withContext s ctx fun ctx =>
      perform s ctx (s.service.retrieveKey token key s.clock) (valueOf Key.toValue))
  | .revokeKey token key ctx =>
    some (withToken s token fun token => withContext s ctx fun ctx =>
      perform s ctx (s.service.revokeKey token key s.clock) doneOf)
  | .identify token ctx =>
    some (withToken s token fun token => withContext s ctx fun ctx =>
      perform s ctx (s.service.identify token s.clock) (valueOf Identity.toValue))
  | .verify token object action ctx =>
    some (withToken s token fun token => withResult s object.read fun object =>
      withContext s ctx fun ctx =>
        match s.service.verify s.conditions ctx token object action s.clock s.world with
        | (none, w) => (.of .unanswered, settleRun s ctx w none)
        | (some v, w) =>
          match v.result with
          | .ok i => (⟨.value i.toValue, some v.audit⟩, settleRun s ctx w none)
          | .error e => (⟨.failed e, some v.audit⟩, settleRun s ctx w (some e)))
  | .lifetimes l =>
    some (.of (.value (lifetimesValue l)),
      { s with service := { s.service with lifetimes := l.toKeyLifetimes } })
  | _ => none

def contextAnswer (s : State) (c : Context) : Answer :=
  .of (.context (c.remaining s.world.now) (c.isCancelled s.world.now) (c.check s.world.now))

def stepContexts (s : State) : Step → Option (Answer × State)
  | .context name ctx =>
    some (withContext s ctx fun c =>
      (contextAnswer s c,
        match ctx with
        | .stored source => s.shareContext name source
        | .made spec => s.storeContext name c.deadline (.ofSpec spec)
        | .background => s.storeContext name c.deadline .idle))
  | .contextFrom name source bounded =>
    some (match s.handles.get? source with
      | some h =>
        let c := s.contextOf h
        let c := (bounded.map (c.boundedBy s.world.now)).getD c
        (contextAnswer s c,
          { s with handles := s.handles.insert name { h with deadline := c.deadline } })
      | none => (.of (.unusable "no such ctx"), s))
  | .contextState ctx => some (withContext s ctx fun c => (contextAnswer s c, s))
  | .cancel ctx =>
    some (match ctx with
      | .stored name =>
        match s.handles.get? name with
        | some h =>
          (.of .done, { s with wishes := s.wishes.modify h.wish ({ · with cancelled := true }) })
        | none => (.of (.unusable "no such ctx"), s)
      | _ => (.of .done, s))
  | .advance time =>
    some (.of .done, s.advance time)
  | .run ctx wait outcome =>
    some (withContext s ctx fun c =>
      runTimed s c (Timed.after c s.horizon wait fun w => (outcome, w))
        fun v s => (.value (.object [("value", v)]), s))
  | _ => none

def step (s : State) (st : Step) : Answer × State :=
  match st with
  | .fault call f => (.of .done, { s with faults := s.faults.insert call f })
  | .dump => (.of (.value (dump s)), s)
  | .unreadable reason => (.of (.unusable reason), s)
  | st =>
    ((((stepGroups s st).or (stepPolicies s st)).or (stepKeys s st)).or (stepContexts s st)).getD
      (.of (.unusable "unknown step"), s)

def run (s : State) : List Step → List Answer
  | [] => []
  | st :: rest => let (answer, s) := step s st; answer :: run s rest

end AccessControl.Scenario
