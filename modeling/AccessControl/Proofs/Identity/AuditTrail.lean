import AccessControl.Proofs.Identity.Lifecycle
import AccessControl.Proofs.Program.Failures

/-! # What the audit trail tells

The outcome on record is read off the last error, which has come through all layers on its way. No
layer makes up a refusal, so whatever the stores do, a token that was not accepted, a request that
was denied and a request that could not be judged are told apart.
-/
namespace AccessControl

/-- A failure to judge a request, rather than a refusal. -/
def AuthError.IsFailure (e : AuthError) : Prop := AuditOutcome.ofError e = .error

open AuthError (IsFailure)
open Program (FailsOnlyWith)

namespace AccessRequest

variable {P : AuthError → Prop}

theorem lookFor_failsOnlyWith (r : AccessRequest) (holder : Principal) :
    (r.lookFor holder).FailsOnlyWith P :=
  (FailsOnlyWith.ask _).bind fun _ => .ok _

theorem climb_failsOnlyWith (found seeds : List GroupId) : (climb found seeds).FailsOnlyWith P := by
  induction seeds generalizing found with
  | nil => exact .ok found
  | cons g seeds ih =>
    refine .call (fun above => ih _) fun e he => ?_
    cases e with
    | notFound what => exact ih found
    | _ => exact .error he

theorem inheritedGroups_failsOnlyWith (subject : Principal) :
    (inheritedGroups subject).FailsOnlyWith P := by
  rw [inheritedGroups]
  split
  · exact (climb_failsOnlyWith _ _).bind fun _ => .ok _
  · exact .call (fun seeds => climb_failsOnlyWith _ seeds) fun e he => .error he
  · exact .call (fun seeds => climb_failsOnlyWith _ seeds) fun e he => .error he

theorem searchGroups_failsOnlyWith (r : AccessRequest) (gs : List GroupId) :
    (r.searchGroups gs).FailsOnlyWith P := by
  induction gs with
  | nil => exact .ok _
  | cons g rest ih =>
    refine (r.lookFor_failsOnlyWith _).bind fun found => ?_
    cases found with
    | some id => exact .ok _
    | none => exact ih

theorem decision_failsOnlyWith (r : AccessRequest) : r.decision.FailsOnlyWith P := by
  refine (r.lookFor_failsOnlyWith _).bind fun found => ?_
  cases found with
  | some id => exact .ok _
  | none => exact (inheritedGroups_failsOnlyWith _).bind r.searchGroups_failsOnlyWith

end AccessRequest

/-- No store fails with a refusal by the service. -/
def Conditions.RefusesNobody (k : Conditions) : Prop :=
  ∀ n c e, (k.schedule n c).failure = some e → e ≠ .unauthorized ∧
    ∀ reason, e ≠ .unauthenticated reason

/-- Where no store refuses anybody, a call that fails has failed to judge. -/
theorem Conditions.RefusesNobody.make_error {k : Conditions} (hk : k.RefusesNobody) {ctx : Context}
    (c : StoreCall) (w : World) (e : AuthError)
    (he : (Program.make k ctx c w).1 = some (.error e)) : e.IsFailure := by
  refine Program.make_error (P := IsFailure) rfl ?_ ?_ c w e he
  · intro n c e hfault
    obtain ⟨hdenied, hrefused⟩ := hk n c e hfault
    cases e with
    | unauthorized => exact absurd rfl hdenied
    | unauthenticated reason => exact absurd rfl (hrefused reason)
    | _ => rfl
  · intro e hrefusal
    cases e with
    | unauthorized | unauthenticated _ => cases hrefusal
    | _ => rfl

namespace IdentityService

variable {s : IdentityService} {k : Conditions} {ctx : Context} {token : String}
  {object : ObjectRef} {action : String} {now : Instant} {w w' : World} {key : Key} {e : AuthError}

/-- A token is refused for its own sake. -/
inductive RefusesToken (s : IdentityService) (k : Conditions) (ctx : Context) (token : String)
    (now : Instant)
    (w : World) : Prop
  | expired (hparse : s.tokenizer.parse token now = .error .expired)
  | malformed {reason : String}
      (hparse : s.tokenizer.parse token now = .error (.malformedToken reason))
  | unnumbered {key : Key} (hparse : s.tokenizer.parse token now = .ok key)
      (htype : key.keyType = .api)
    (hid : key.id = none)
  | unrecorded {key : Key} {id what : String} (hparse : s.tokenizer.parse token now = .ok key)
    (htype : key.keyType = .api) (hid : key.id = some id)
    (hrecord : (Program.make k ctx (.key ⟨key.issuerId, id⟩) w).1 = some (.error (.notFound what)))
  | recovery {key : Key} (hparse : s.tokenizer.parse token now = .ok key)
      (htype : key.keyType = .recovery)

def Accepts (s : IdentityService) (k : Conditions) (ctx : Context) (token : String) (now : Instant)
    (w : World) (i : Identity) (w' : World) : Prop :=
  (s.identify token now).perform k ctx w = (some (.ok i), w') ∧ i.keyType ≠ .recovery

def Denies (s : IdentityService) (k : Conditions) (ctx : Context) (token : String)
    (object : ObjectRef) (action : String) (now : Instant) (w : World) : Prop :=
  ∃ i w', s.Accepts k ctx token now w i w' ∧
    (s.engine.authorize k ctx (request i object action) w').1 = some (.ok .deny)

theorem perform_identify_of_parse_error (h : s.tokenizer.parse token now = .error e)
    (k : Conditions) (ctx : Context) (w : World) :
    (s.identify token now).perform k ctx w = (some (.error (refuseToken e)), w) := by
  rw [identify, parse, h]
  rfl

theorem perform_identify_of_type (h : s.tokenizer.parse token now = .ok key)
    (htype : key.keyType ≠ .api) (k : Conditions) (ctx : Context) (w : World) :
    (s.identify token now).perform k ctx w = (some (.ok (Identity.ofKey key)), w) := by
  rw [identify, parse, h]
  show (requireRecord key >>= _ : Program Identity).perform k ctx w = _
  rw [requireRecord, if_neg htype]
  rfl

theorem perform_identify_of_no_id (h : s.tokenizer.parse token now = .ok key)
    (htype : key.keyType = .api) (hid : key.id = none) (k : Conditions) (ctx : Context)
    (w : World) :
    (s.identify token now).perform k ctx w =
      (some (.error (.unauthenticated "api key has no id")), w) := by
  rw [identify, parse, h]
  show (requireRecord key >>= _ : Program Identity).perform k ctx w = _
  rw [requireRecord, if_pos htype, hid]
  rfl

def recorded (key : Key) (id : String) : Result Key → Result Identity
  | .ok _ => .ok (Identity.ofKey key)
  | .error (.notFound _) => .error (.unauthenticated s!"api key {id} is revoked")
  | .error e => .error e

/-- The token of an API key leads to one look-up, and its answer to who is identified. -/
theorem perform_identify_of_id (h : s.tokenizer.parse token now = .ok key)
    (htype : key.keyType = .api) {id : String} (hid : key.id = some id) (k : Conditions)
    (ctx : Context) (w : World) :
    (s.identify token now).perform k ctx w =
      ((Program.make k ctx (.key ⟨key.issuerId, id⟩) w).1.map (recorded key id),
        (Program.make k ctx (.key ⟨key.issuerId, id⟩) w).2) := by
  rw [identify, parse, h]
  show (requireRecord key >>= _ : Program Identity).perform k ctx w = _
  rw [requireRecord, if_pos htype, hid]
  show (Program.call _ _).perform k ctx w = _
  simp only [Program.perform]
  generalize Program.make k ctx (.key ⟨key.issuerId, id⟩) w = out
  obtain ⟨_ | (e | found), w'⟩ := out
  · rfl
  · cases e <;> rfl
  · rfl

inductive Identified (s : IdentityService) (k : Conditions) (ctx : Context) (token : String)
    (now : Instant)
    (w : World) : Option (Result Identity) → Prop
  | known {key : Key} (hparse : s.tokenizer.parse token now = .ok key)
    (hnot : key.keyType ≠ .recovery → ¬s.RefusesToken k ctx token now w) :
    Identified s k ctx token now w (some (.ok (Identity.ofKey key)))
  | refused (h : s.RefusesToken k ctx token now w) (reason : String) :
    Identified s k ctx token now w (some (.error (.unauthenticated reason)))
  | failed {e : AuthError} (he : e.IsFailure) (hnot : ¬s.RefusesToken k ctx token now w) :
    Identified s k ctx token now w (some (.error e))
  | unanswered : Identified s k ctx token now w none

theorem identified_of_parse_error (h : s.tokenizer.parse token now = .error e) :
    s.Identified k ctx token now w (some (.error (refuseToken e))) := by
  cases hsecret : s.tokenizer.secret.isBlank with
  | true =>
    rw [Tokenizer.parse_of_blank hsecret] at h
    cases h
    refine .failed rfl ?_
    rintro (hparse | hparse | ⟨hparse, -, -⟩ | ⟨hparse, -, -, -⟩ | ⟨hparse, -⟩) <;>
      rw [Tokenizer.parse_of_blank hsecret] at hparse <;> cases hparse
  | false =>
    rcases Tokenizer.parse_error_cases hsecret h with rfl | ⟨reason, rfl⟩
    · exact .refused (.expired h) _
    · exact .refused (.malformed h) _

/-- A key that can be read is refused for its own sake in three cases: an API key without an
identifier, one that is not on record, and a recovery key. -/
theorem refusesToken_iff (h : s.tokenizer.parse token now = .ok key) :
    s.RefusesToken k ctx token now w ↔
    (key.keyType = .api ∧ key.id = none) ∨
    (key.keyType = .api ∧ ∃ id what, key.id = some id ∧
      (Program.make k ctx (.key ⟨key.issuerId, id⟩) w).1 = some (.error (.notFound what))) ∨
    key.keyType = .recovery := by
  constructor
  · rintro (hparse | hparse | ⟨hparse, htype, hid⟩ | ⟨hparse, htype, hid, hrecord⟩ |
      ⟨hparse, htype⟩) <;>
      cases h.symm.trans hparse
    · exact .inl ⟨htype, hid⟩
    · exact .inr (.inl ⟨htype, _, _, hid, hrecord⟩)
    · exact .inr (.inr htype)
  · rintro (⟨htype, hid⟩ | ⟨htype, id, what, hid, hrecord⟩ | htype)
    · exact .unnumbered h htype hid
    · exact .unrecorded h htype hid hrecord
    · exact .recovery h htype

/-- An API key with an identifier is refused only when the look-up misses; every other failure is
none of the token. -/
theorem identified_of_id (hk : k.RefusesNobody) (h : s.tokenizer.parse token now = .ok key)
    (htype : key.keyType = .api) {id : String} (hid : key.id = some id) :
    s.Identified k ctx token now w
      ((Program.make k ctx (.key ⟨key.issuerId, id⟩) w).1.map (recorded key id)) := by
  have hnot :
      (∀ what, (Program.make k ctx (.key ⟨key.issuerId, id⟩) w).1 ≠
        some (.error (.notFound what))) →
      ¬s.RefusesToken k ctx token now w := by
    intro hfound hrefused
    rcases (refusesToken_iff h).1 hrefused with
      ⟨-, hnone⟩ | ⟨-, id', what, hid', hrecord⟩ | hrecovery
    · cases hid.symm.trans hnone
    · cases hid.symm.trans hid'
      exact hfound what hrecord
    · cases htype.symm.trans hrecovery
  cases hanswer : (Program.make k ctx (.key ⟨key.issuerId, id⟩) w).1 with
  | none => exact .unanswered
  | some r =>
    rw [hanswer] at hnot
    rcases r with e | found
    · have hfailure : e.IsFailure := hk.make_error _ w e hanswer
      cases e with
      | notFound what => exact .refused (.unrecorded h htype hid hanswer) _
      | _ => exact .failed hfailure (hnot nofun)
    · exact .known h fun _ => hnot nofun

/-- Whatever the token is, what is found out about it is told by its key and by the look-up. -/
theorem identified (hk : k.RefusesNobody) (s : IdentityService) (ctx : Context) (token : String)
    (now : Instant) (w : World) :
    s.Identified k ctx token now w ((s.identify token now).perform k ctx w).1 := by
  cases hparse : s.tokenizer.parse token now with
  | error e =>
    rw [perform_identify_of_parse_error hparse]
    exact identified_of_parse_error hparse
  | ok key =>
    by_cases htype : key.keyType = .api
    · cases hid : key.id with
      | none =>
        rw [perform_identify_of_no_id hparse htype hid]
        exact .refused (.unnumbered hparse htype hid) _
      | some id =>
        rw [perform_identify_of_id hparse htype hid]
        exact identified_of_id hk hparse htype hid
    · rw [perform_identify_of_type hparse htype]
      refine .known hparse fun hrecovery => ?_
      rw [refusesToken_iff hparse]
      simp [htype, hrecovery]

inductive Concludes (s : IdentityService) (k : Conditions) (ctx : Context) (token : String)
    (object : ObjectRef)
    (action : String) (now : Instant) (w : World) : Result Identity → Prop
  | allowed (i : Identity) (hdenies : ¬s.Denies k ctx token object action now w)
    (hrefuses : ¬s.RefusesToken k ctx token now w) :
      Concludes s k ctx token object action now w (.ok i)
  | denied (hdenies : s.Denies k ctx token object action now w)
      (hrefuses : ¬s.RefusesToken k ctx token now w) :
    Concludes s k ctx token object action now w (.error .unauthorized)
  | refused (reason : String) (hdenies : ¬s.Denies k ctx token object action now w)
    (hrefuses : s.RefusesToken k ctx token now w) :
    Concludes s k ctx token object action now w (.error (.unauthenticated reason))
  | failed {e : AuthError} (he : e.IsFailure) (hdenies : ¬s.Denies k ctx token object action now w)
    (hrefuses : ¬s.RefusesToken k ctx token now w) :
      Concludes s k ctx token object action now w (.error e)

theorem denies_iff {i : Identity} (h : s.Accepts k ctx token now w i w') :
    s.Denies k ctx token object action now w ↔
      (s.engine.authorize k ctx (request i object action) w').1 = some (.ok .deny) := by
  constructor
  · rintro ⟨_, _, ⟨hperform, -⟩, hdeny⟩
    cases h.1.symm.trans hperform
    exact hdeny
  · exact fun hdeny => ⟨i, w', h, hdeny⟩

theorem not_denies (h : ∀ i w', ¬s.Accepts k ctx token now w i w') :
    ¬s.Denies k ctx token object action now w := by
  rintro ⟨i, w', haccepts, -⟩
  exact h i w' haccepts

/-- An accepted token leaves the conclusion to the engine. -/
theorem concludes_of_accepts (hk : k.RefusesNobody) {i : Identity} {w₁ : World}
    (haccepts : s.Accepts k ctx token now w i w₁) (hrefuses : ¬s.RefusesToken k ctx token now w)
    {r : Result Identity} (h : s.judge k ctx object action i w₁ = (some r, w')) :
    s.Concludes k ctx token object action now w r := by
  have hdenies : s.Denies k ctx token object action now w ↔ _ := denies_iff haccepts
  have hfailure : ∀ e, (s.engine.authorize k ctx (request i object action) w₁).1 = some (.error e) →
      e.IsFailure :=
    fun e he => (request i object action).decision_failsOnlyWith.perform hk.make_error he
  rw [judge_eq haccepts.2] at h
  generalize s.engine.authorize k ctx (request i object action) w₁ = answer at h hdenies hfailure
  obtain ⟨_ | (e | (g | _)), w₂⟩ := answer
  · cases h
  · cases h
    exact .failed (hfailure e rfl) (fun hd => nomatch hdenies.1 hd) hrefuses
  · cases h
    exact .allowed i (fun hd => nomatch hdenies.1 hd) hrefuses
  · cases h
    exact .denied (hdenies.2 rfl) hrefuses

/-- Every request that ends does so in one of the ways there are. -/
theorem concludes (hk : k.RefusesNobody) {r : Result Identity}
    (h : s.examine k ctx token object action now w = (some r, w')) :
    s.Concludes k ctx token object action now w r := by
  have hidentified := s.identified hk ctx token now w
  rw [examine_eq] at h
  rcases hperform : (s.identify token now).perform k ctx w with ⟨answer, w₁⟩
  rw [hperform] at h hidentified
  have hunknown : (∀ i, answer ≠ some (.ok i)) → ¬s.Denies k ctx token object action now w := by
    intro hanswer
    refine not_denies fun i _ hi => ?_
    cases hperform.symm.trans hi.1
    exact hanswer i rfl
  cases hidentified with
  | refused hrefused reason =>
    cases h
    exact .refused reason (hunknown nofun) hrefused
  | failed he hnot =>
    cases h
    exact .failed he (hunknown nofun) hnot
  | unanswered => cases h
  | @known key hparse hnot =>
    dsimp only at h
    by_cases hrecovery : key.keyType = .recovery
    · rw [judge_of_recovery (i := Identity.ofKey key) hrecovery] at h
      cases h
      refine .refused _ (not_denies fun i _ hi => ?_) (.recovery hparse hrecovery)
      cases hperform.symm.trans hi.1
      exact hi.2 hrecovery
    · exact concludes_of_accepts hk ⟨hperform, hrecovery⟩ (hnot hrecovery) h

theorem stop_effective (e : Engine) (now : Millis) (h : ctx.stop ≠ none) :
    (e.effective ctx now).stop ≠ none := by
  cases hdeadline : ctx.deadline with
  | some d =>
    simp only [Engine.effective, hdeadline]
    exact h
  | none =>
    cases htimeout : e.decisionTimeout with
    | none =>
      simp only [Engine.effective, hdeadline, htimeout]
      exact h
    | some limit =>
      simp only [Engine.effective, hdeadline, htimeout, Context.stop, Context.boundedBy]
      cases ctx.cancelAt <;> simp [Context.earlier]

/-- While somebody watches, a request is answered when its context ends some day or no call takes
forever. -/
theorem examine_ne_none (hhorizon : k.horizon = none)
    (hends : ctx.stop ≠ none ∨ ∀ n c, (k.schedule n c).wait ≠ none) :
    (s.examine k ctx token object action now w).1 ≠ none := by
  have hidentify :=
    Program.perform_ne_none (Program.make_ne_none hhorizon hends) (s.identify token now) w
  rw [examine_eq]
  generalize (s.identify token now).perform k ctx w = out at hidentify
  obtain ⟨_ | (e | i), w₁⟩ := out
  · exact absurd rfl hidentify
  · exact nofun
  · dsimp only
    by_cases hrecovery : i.keyType = .recovery
    · rw [judge_of_recovery hrecovery]
      exact nofun
    · have hlimited := hends.imp_left (stop_effective s.engine w₁.now)
      have hdecision := Program.perform_ne_none (Program.make_ne_none hhorizon hlimited)
        (request i object action).decision w₁
      have hauthorize : (s.engine.authorize k ctx (request i object action) w₁).1 ≠ none :=
        hdecision
      rw [judge_eq hrecovery]
      generalize s.engine.authorize k ctx (request i object action) w₁ = answer at hauthorize
      obtain ⟨_ | (e | (g | _)), w₂⟩ := answer
      · exact absurd rfl hauthorize
      · exact nofun
      · exact nofun
      · exact nofun

theorem examine_of_blank (hsecret : s.tokenizer.secret.isBlank = true) (k : Conditions)
    (ctx : Context) (token : String) (object : ObjectRef) (action : String) (now : Instant)
    (w : World) :
    s.examine k ctx token object action now w =
      (some (.error (.signing "signing secret is empty")), w) := by
  rw [examine_eq, perform_identify_of_parse_error (Tokenizer.parse_of_blank hsecret)]
  rfl

def recordOf (object : ObjectRef) (action : String) (r : Result Identity) : AuditRecord :=
  .ofResult object.text action (r.map (·.subject))

variable {r : Result Identity}

theorem verify_eq_some_iff {v : Verification} :
    s.verify k ctx token object action now w = (some v, w') ↔
    s.examine k ctx token object action now w = (some v.result, w') ∧
      v.audit = [recordOf object action v.result] := by
  rw [verify]
  generalize s.examine k ctx token object action now w = out
  obtain ⟨_ | r, w₁⟩ := out
  · simp
  · constructor
    · intro h
      cases h
      exact ⟨rfl, rfl⟩
    · rintro ⟨h, haudit⟩
      cases h
      obtain ⟨result, audit⟩ := v
      rw [show audit = _ from haudit]
      rfl

theorem object_recordOf (object : ObjectRef) (action : String) (r : Result Identity) :
    (recordOf object action r).object = object.text ∧
      (recordOf object action r).action = action := by
  cases r <;> exact ⟨rfl, rfl⟩

theorem level_recordOf : (recordOf object action r).level = .warn ↔
    (∃ reason, r = .error (.storeUnavailable reason)) ∨
      (∃ group reason, r = .error (.corruptHierarchy group reason)) ∨
      ∃ reason, r = .error (.signing reason) := by
  rcases r with e | i
  · cases e <;> simp [recordOf, AuditRecord.ofResult, AuthError.isInternal, Except.map]
  · simp [recordOf, AuditRecord.ofResult, Except.map]

theorem subject_recordOf {subject : String} :
    (recordOf object action r).subject = some subject ↔ ∃ i, r = .ok i ∧ i.subject = subject := by
  rcases r with e | i <;> simp [recordOf, AuditRecord.ofResult, Except.map]

theorem error_recordOf {text : String} :
    (recordOf object action r).error = some text ↔ ∃ e, r = .error e ∧ e.message = text := by
  rcases r with e | i <;> simp [recordOf, AuditRecord.ofResult, Except.map]

/-- The outcome on record tells the way in which the request ended. -/
theorem Concludes.outcome_iff (h : s.Concludes k ctx token object action now w r) :
    let outcome := (recordOf object action r).outcome
    (outcome = .allow ↔ ∃ i, r = .ok i) ∧
      (outcome = .deny ↔ s.Denies k ctx token object action now w) ∧
    (outcome = .unauthenticated ↔ s.RefusesToken k ctx token now w) ∧
    (outcome = .error ↔ (∃ e, r = .error e) ∧ ¬s.Denies k ctx token object action now w ∧
      ¬s.RefusesToken k ctx token now w) := by
  intro outcome
  cases h with
  | allowed i hdenies hrefuses =>
    have houtcome : outcome = .allow := rfl
    simp [houtcome, hdenies, hrefuses]
  | denied hdenies hrefuses =>
    have houtcome : outcome = .deny := rfl
    simp [houtcome, hdenies, hrefuses]
  | refused reason hdenies hrefuses =>
    have houtcome : outcome = .unauthenticated := rfl
    simp [houtcome, hdenies, hrefuses]
  | failed he hdenies hrefuses =>
    have houtcome : outcome = .error := he
    simp [houtcome, hdenies, hrefuses]

/-- Whatever faults the stores have, short of a refusal that no store gives, there is one record of
each request that is answered. It tells whether the request was allowed, was denied by the engine,
or came with a token that was refused, and it tells everything else as an error. It is a warning
just when the service is to blame, and it names the subject of a request that was allowed and the
reason of every other. There is an answer while somebody watches, unless a call takes forever and
nothing ends the context. -/
theorem audit_tells_refusal_from_failure (s : IdentityService) (k : Conditions)
    (hk : k.RefusesNobody) (ctx : Context) (token : String) (object : ObjectRef) (action : String)
    (now : Instant) (w : World) :
    let out := s.verify k ctx token object action now w
    (∀ v, out.1 = some v → ∃ record, v.audit = [record] ∧ record.object = object.text ∧
      record.action = action ∧
      (record.outcome = .allow ↔ ∃ i, v.result = .ok i) ∧
      (record.outcome = .deny ↔ s.Denies k ctx token object action now w) ∧
      (record.outcome = .unauthenticated ↔ s.RefusesToken k ctx token now w) ∧
      (record.outcome = .error ↔ (∃ e, v.result = .error e) ∧
        ¬s.Denies k ctx token object action now w ∧
        ¬s.RefusesToken k ctx token now w) ∧
      (s.tokenizer.secret.isBlank = true → record.outcome = .error) ∧
      (record.level = .warn ↔ (∃ reason, v.result = .error (.storeUnavailable reason)) ∨
        (∃ group reason, v.result = .error (.corruptHierarchy group reason)) ∨
        ∃ reason, v.result = .error (.signing reason)) ∧
      (∀ subject, record.subject = some subject ↔ ∃ i, v.result = .ok i ∧ i.subject = subject) ∧
      ∀ text, record.error = some text ↔ ∃ e, v.result = .error e ∧ e.message = text) ∧
    (k.horizon = none → (ctx.stop ≠ none ∨ ∀ n c, (k.schedule n c).wait ≠ none) →
      out.1 ≠ none) := by
  intro out
  refine ⟨?_, ?_⟩
  · intro v hv
    obtain ⟨hexamine, haudit⟩ := verify_eq_some_iff.1 (Prod.ext hv rfl : out = (some v, out.2))
    obtain ⟨hallow, hdeny, hunauthenticated, herror⟩ := (concludes hk hexamine).outcome_iff
    obtain ⟨hobject, haction⟩ := object_recordOf object action v.result
    refine ⟨_, haudit, hobject, haction, hallow, hdeny, hunauthenticated, herror, ?_,
      level_recordOf, fun _ => subject_recordOf, fun _ => error_recordOf⟩
    intro hsecret
    rw [examine_of_blank hsecret] at hexamine
    rw [← Option.some.inj (congrArg Prod.fst hexamine)]
    rfl
  · intro hhorizon hends hnone
    have hanswer : (s.examine k ctx token object action now w).1 ≠ none :=
      examine_ne_none hhorizon hends
    rw [show out = s.verify k ctx token object action now w from rfl, verify] at hnone
    generalize s.examine k ctx token object action now w = answer at hnone hanswer
    obtain ⟨_ | r, w'⟩ := answer
    · exact hanswer rfl
    · cases hnone

def sampleOutage : Conditions :=
  ⟨fun _ _ => ⟨some 10, some (.storeUnavailable "down"), .faithful⟩, none⟩

/-- During an outage a user who is logged in is neither denied anything nor refused. -/
theorem audit_of_outage : sampleOutage.RefusesNobody ∧ ∃ token v record,
    (∃ key, sampleService.login "ann" (some "ann@example.com") ⟨1767225600, 0⟩ = .ok (key, token)) ∧
    (sampleService.verify sampleOutage .background token ⟨"channel", "news"⟩ "publish"
      ⟨1767225601, 500000000⟩
      ⟨Stores.empty, 0, 0⟩).1 = some v ∧
    v.audit = [record] ∧ record.outcome = .error ∧ record.level = .warn := by
  have hk : sampleOutage.RefusesNobody := by
    intro n c e he
    cases he
    exact ⟨nofun, nofun⟩
  obtain ⟨token, hlogin, hissuer⟩ := sampleService_login
  have hparse := (authenticateIssuer_eq_ok_iff.1 (hissuer ⟨1767225601, 500000000⟩ (by decide))).1
  have hidentify :=
    perform_identify_of_type hparse nofun sampleOutage .background ⟨Stores.empty, 0, 0⟩
  have hjudge : sampleService.judge sampleOutage .background ⟨"channel", "news"⟩ "publish"
      (Identity.ofKey (Key.ofRequest sampleLogin .user)) ⟨Stores.empty, 0, 0⟩ =
        (some (.error (.storeUnavailable "down")), ⟨Stores.empty, 10, 1⟩) := by
    rw [judge_eq (by decide)]
    rfl
  have hexamine : sampleService.examine sampleOutage .background token ⟨"channel", "news"⟩ "publish"
      ⟨1767225601, 500000000⟩ ⟨Stores.empty, 0, 0⟩ =
        (some (.error (.storeUnavailable "down")), ⟨Stores.empty, 10, 1⟩) := by
    rw [examine_eq, hidentify]
    exact hjudge
  obtain ⟨htells, -⟩ :=
    audit_tells_refusal_from_failure sampleService sampleOutage hk .background token
    ⟨"channel", "news"⟩ "publish" ⟨1767225601, 500000000⟩ ⟨Stores.empty, 0, 0⟩
  obtain ⟨v, hv, hresult⟩ :
      ∃ v, (sampleService.verify sampleOutage .background token ⟨"channel", "news"⟩ "publish"
      ⟨1767225601, 500000000⟩ ⟨Stores.empty, 0, 0⟩).1 = some v ∧
        v.result = .error (.storeUnavailable "down") := by
    rw [verify, hexamine]
    exact ⟨_, rfl, rfl⟩
  obtain ⟨record, haudit, -, -, -, -, -, herror, -, hlevel, -⟩ := htells v hv
  refine ⟨hk, token, v, record, ⟨_, hlogin⟩, hv, haudit, herror.2 ⟨⟨_, hresult⟩, ?_, ?_⟩,
    hlevel.2 (.inl ⟨_, hresult⟩)⟩
  · intro hdenies
    cases (denies_iff ⟨hidentify, by decide⟩).1 hdenies
  · rw [refusesToken_iff hparse]
    rintro (⟨htype, -⟩ | ⟨htype, -⟩ | htype) <;> cases htype

end IdentityService
end AccessControl
