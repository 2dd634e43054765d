import AccessControl.Identity
import AccessControl.Proofs.Decision.Authorize
import AccessControl.Proofs.Tokenizer.Reading

/-! # What verification answers

Without faults a request is verified in three steps: the token gives a key or is refused, the key is
in good standing or is refused, and the engine judges what its bearer asks for as a user. Each way
to end has its own answer, and none of them changes a store.
-/
namespace AccessControl

namespace Key

variable {k : Key} {keys : KeyStore}

/-- An API key has an identifier, under which its issuer has a key on record. -/
def OnRecord (k : Key) (keys : KeyStore) : Prop :=
  k.keyType = .api → ∃ id, k.id = some id ∧ keys.keys.get? ⟨k.issuerId, id⟩ ≠ none

structure InGoodStanding (k : Key) (keys : KeyStore) : Prop where
  not_recovery : k.keyType ≠ .recovery
  on_record : k.OnRecord keys

theorem missing_of_not_onRecord (h : ¬k.OnRecord keys) :
    k.keyType = .api ∧ ∀ id, k.id = some id → keys.keys.get? ⟨k.issuerId, id⟩ = none := by
  obtain ⟨htype, hmissing⟩ := Classical.not_imp.1 h
  exact ⟨htype, fun id hid => Decidable.of_not_not fun hfound => hmissing ⟨id, hid, hfound⟩⟩

end Key

namespace Engine

variable {e : Engine} {r : AccessRequest} {w w' : World}

/-- Only the stores decide what an engine answers when nothing is in its way. -/
theorem authorize_calm_congr (h : w.stores.Sound) (hsame : w'.stores = w.stores) (e : Engine)
    (r : AccessRequest) :
    (e.authorize .calm .background r w').1 = (e.authorize .calm .background r w).1 ∧
      (e.authorize .calm .background r w').2.stores = w.stores := by
  by_cases hlimit : e.decisionTimeout = some 0
  · rw [authorize_calm_zero hlimit, authorize_calm_zero hlimit]
    exact ⟨rfl, hsame⟩
  · obtain ⟨hanswer, hstores⟩ := authorize_calm hlimit (hsame ▸ h) r
    rw [hanswer, hstores, (authorize_calm hlimit h r).1, hsame]
    exact ⟨rfl, rfl⟩

end Engine

namespace IdentityService

variable {s : IdentityService} {st : Stores} {token : String} {now : Instant} {k : Key}
  {err : AuthError}

theorem run_key (slot : KeySlot) {α : Type} (next : Result Key → Program α) :
    (Program.call (.key slot) next).run st = (next (st.keys.retrieve slot)).run st := by
  rw [Program.run_call, Stores.after_query rfl, Stores.reply, Stores.serve]
  cases st.keys.retrieve slot <;> rfl

theorem run_requireRecord (h : k.OnRecord st.keys) : (requireRecord k).run st = (.ok (), st) := by
  rw [requireRecord]
  split
  · rename_i htype
    obtain ⟨id, hid, hrecord⟩ := h htype
    obtain ⟨found, hfound⟩ := Option.ne_none_iff_exists'.1 hrecord
    simp only [hid, run_key, KeyStore.retrieve, hfound]
    rfl
  · rfl

theorem run_requireRecord_of_missing (h : ¬k.OnRecord st.keys) :
    ∃ reason, (requireRecord k).run st = (.error (.unauthenticated reason), st) := by
  obtain ⟨htype, hmissing⟩ := Key.missing_of_not_onRecord h
  rw [requireRecord, if_pos htype]
  cases hid : k.id with
  | none => exact ⟨_, rfl⟩
  | some id =>
    simp only [run_key, KeyStore.retrieve, hmissing id hid]
    exact ⟨_, rfl⟩

theorem run_identify_of_error (h : s.tokenizer.parse token now = .error err) :
    (s.identify token now).run st = (.error (refuseToken err), st) := by
  rw [identify, parse, h]
  rfl

theorem run_identify_of_ok (h : s.tokenizer.parse token now = .ok k) :
    (s.identify token now).run st =
    (requireRecord k >>= fun _ => pure (Identity.ofKey k) : Program Identity).run st := by
  rw [identify, parse, h]
  rfl

theorem run_identify_of_record (h : s.tokenizer.parse token now = .ok k)
    (hrecord : k.OnRecord st.keys) :
    (s.identify token now).run st = (.ok (Identity.ofKey k), st) := by
  rw [run_identify_of_ok h, Program.run_bind, run_requireRecord hrecord]
  rfl

theorem run_identify_of_missing (h : s.tokenizer.parse token now = .ok k)
    (hmissing : ¬k.OnRecord st.keys) :
    ∃ reason, (s.identify token now).run st = (.error (.unauthenticated reason), st) := by
  obtain ⟨reason, hrequire⟩ := run_requireRecord_of_missing hmissing
  exact ⟨reason, by rw [run_identify_of_ok h, Program.run_bind, hrequire]⟩

section Steps

variable {conditions : Conditions} {ctx : Context} {w : World} {object : ObjectRef}
  {action : String} {i : Identity}

def judge (s : IdentityService) (conditions : Conditions) (ctx : Context) (object : ObjectRef)
    (action : String) (i : Identity) : Timed Identity :=
  if i.keyType = .recovery then
    Timed.fail (.unauthenticated "recovery keys cannot authorize requests")
  else do
    match ← s.engine.authorize conditions ctx (request i object action) with
    | .allow _ => return i
    | .deny => Timed.fail .unauthorized

theorem examine_eq (s : IdentityService) (conditions : Conditions) (ctx : Context) (token : String)
    (object : ObjectRef) (action : String) (now : Instant) (w : World) :
    s.examine conditions ctx token object action now w =
      match (s.identify token now).perform conditions ctx w with
      | (some (.ok i), w') => s.judge conditions ctx object action i w'
      | (some (.error e), w') => (some (.error e), w')
      | (none, w') => (none, w') := by
  show Timed.bind _ (s.judge conditions ctx object action) w = _
  rw [Timed.bind]
  generalize (s.identify token now).perform conditions ctx w = out
  obtain ⟨_ | (e | i), w'⟩ := out <;> rfl

theorem judge_of_recovery (h : i.keyType = .recovery) :
    s.judge conditions ctx object action i w =
      (some (.error (.unauthenticated "recovery keys cannot authorize requests")), w) := by
  rw [judge, if_pos h]
  rfl

/-- The bearer is told what the engine says, and is identified when it allows the request. -/
theorem judge_eq (h : i.keyType ≠ .recovery) : s.judge conditions ctx object action i w =
    match s.engine.authorize conditions ctx (request i object action) w with
    | (some (.ok (.allow _)), w') => (some (.ok i), w')
    | (some (.ok .deny), w') => (some (.error .unauthorized), w')
    | (some (.error e), w') => (some (.error e), w')
    | (none, w') => (none, w') := by
  rw [judge, if_neg h]
  show Timed.bind _ _ w = _
  rw [Timed.bind]
  generalize s.engine.authorize conditions ctx (request i object action) w = answer
  obtain ⟨_ | (e | (g | _)), w'⟩ := answer <;> rfl

end Steps

variable {w w' : World} {object : ObjectRef} {action : String} {r : Result Identity}

def judged (s : IdentityService) (w : World) (object : ObjectRef) (action : String) (k : Key) :
    Option (Result Decision) :=
  (s.engine.authorize .calm .background ⟨⟨.user, k.subject⟩, object, action⟩ w).1

def told (k : Key) : Result Decision → Result Identity
  | .ok (.allow _) => .ok (Identity.ofKey k)
  | .ok .deny => .error .unauthorized
  | .error e => .error e

/-- The results that a verification may have, with the condition of each. -/
inductive Ends (s : IdentityService) (w : World) (token : String) (object : ObjectRef)
    (action : String)
    (now : Instant) : Result Identity → Prop
  | unsigned (hsecret : s.tokenizer.secret.isBlank = true) (reason : String) :
    Ends s w token object action now (.error (.signing reason))
  | unauthenticated (hsecret : s.tokenizer.secret.isBlank = false)
    (hrefused : ∀ k, s.tokenizer.parse token now = .ok k → ¬k.InGoodStanding w.stores.keys)
      (reason : String) :
    Ends s w token object action now (.error (.unauthenticated reason))
  | judged {k : Key} {d : Result Decision} (hparse : s.tokenizer.parse token now = .ok k)
    (hstanding : k.InGoodStanding w.stores.keys) (hjudged : s.judged w object action k = some d)
    (hlate : ∀ e, d = .error e → e = .deadlineExceeded) :
      Ends s w token object action now (told k d)

theorem perform_identify {result : Result Identity}
    (hrun : (s.identify token now).run w.stores = (result, w.stores)) :
    ∃ w', (s.identify token now).perform .calm .background w = (some result, w') ∧
      w'.stores = w.stores := by
  have hbackground : Context.background.isDone w.now = false := rfl
  obtain ⟨hresult, hstores⟩ := Program.perform_calm hbackground (s.identify token now)
  rw [hrun] at hresult hstores
  exact ⟨_, Prod.ext hresult rfl, hstores⟩

theorem examine_of_run {result : Result Identity} (object : ObjectRef) (action : String)
    (hrun : (s.identify token now).run w.stores = (result, w.stores)) :
    ∃ w', w'.stores = w.stores ∧ s.examine .calm .background token object action now w =
      match result with
      | .ok i => s.judge .calm .background object action i w'
      | .error e => (some (.error e), w') := by
  obtain ⟨w', hperform, hstores⟩ := perform_identify hrun
  refine ⟨w', hstores, ?_⟩
  rw [examine_eq, hperform]
  cases result <;> rfl

/-- A failure to identify the bearer ends the examination. -/
theorem examine_of_error (object : ObjectRef) (action : String)
    (hrun : (s.identify token now).run w.stores = (.error err, w.stores)) :
    ∃ w', s.examine .calm .background token object action now w = (some (.error err), w') ∧
      w'.stores = w.stores := by
  obtain ⟨w', hstores, hexamine⟩ := examine_of_run object action hrun
  exact ⟨w', hexamine, hstores⟩

theorem examine_of_recovery (object : ObjectRef) (action : String)
    (hrun : (s.identify token now).run w.stores = (.ok (Identity.ofKey k), w.stores))
    (htype : k.keyType = .recovery) : ∃ w', s.examine .calm .background token object action now w =
      (some (.error (.unauthenticated "recovery keys cannot authorize requests")), w') ∧
        w'.stores = w.stores := by
  obtain ⟨w', hstores, hexamine⟩ := examine_of_run object action hrun
  exact ⟨w', hexamine.trans (judge_of_recovery htype), hstores⟩

theorem examine_of_judged (h : w.stores.Sound)
    (hrun : (s.identify token now).run w.stores = (.ok (Identity.ofKey k), w.stores))
    (htype : k.keyType ≠ .recovery) {d : Result Decision}
    (hjudged : s.judged w object action k = some d) :
    ∃ w', s.examine .calm .background token object action now w = (some (told k d), w') ∧
      w'.stores = w.stores := by
  obtain ⟨w', hstores, hexamine⟩ := examine_of_run object action hrun
  obtain ⟨hanswer, hafter⟩ :=
    Engine.authorize_calm_congr h hstores s.engine ⟨⟨.user, k.subject⟩, object, action⟩
  have hengine :
      s.engine.authorize .calm .background (request (Identity.ofKey k) object action) w' =
        (some d, _) :=
    Prod.ext (hanswer.trans hjudged) rfl
  refine ⟨_, hexamine.trans ?_, hafter⟩
  refine (judge_eq htype).trans ?_
  rw [hengine]
  rcases d with e | (g | _) <;> rfl

theorem judged_of_limit (h : w.stores.Sound) (hlimit : s.engine.decisionTimeout ≠ some 0)
    (object : ObjectRef) (action : String) (k : Key) : s.judged w object action k =
      some (.ok ((request (Identity.ofKey k) object action).firstMatch w.stores)) :=
  (Engine.authorize_calm hlimit h _).1

theorem judged_of_no_time (hlimit : s.engine.decisionTimeout = some 0) (w : World)
    (object : ObjectRef) (action : String) (k : Key) :
    s.judged w object action k = some (.error .deadlineExceeded) := by
  rw [judged, Engine.authorize_calm_zero hlimit]

theorem exists_judged (h : w.stores.Sound) (s : IdentityService) (object : ObjectRef)
    (action : String) (k : Key) :
    ∃ d, s.judged w object action k = some d ∧ ∀ e, d = .error e → e = .deadlineExceeded := by
  by_cases hlimit : s.engine.decisionTimeout = some 0
  · refine ⟨_, judged_of_no_time hlimit w object action k, ?_⟩
    intro e he
    cases he
    rfl
  · exact ⟨_, judged_of_limit h hlimit object action k, nofun⟩

theorem ends_of_parse_error (hparse : s.tokenizer.parse token now = .error err) :
    s.Ends w token object action now (.error (refuseToken err)) := by
  cases hsecret : s.tokenizer.secret.isBlank with
  | true =>
    rw [Tokenizer.parse_of_blank hsecret] at hparse
    cases hparse
    exact .unsigned hsecret _
  | false =>
    have hrefused : ∀ k, s.tokenizer.parse token now = .ok k → ¬k.InGoodStanding w.stores.keys := by
      intro k hk
      rw [hparse] at hk
      cases hk
    rcases Tokenizer.parse_error_cases hsecret hparse with rfl | ⟨reason, rfl⟩
    · exact .unauthenticated hsecret hrefused _
    · exact .unauthenticated hsecret hrefused _

theorem ends_of_not_inGoodStanding (hparse : s.tokenizer.parse token now = .ok k)
    (hstanding : ¬k.InGoodStanding w.stores.keys) (reason : String) :
    s.Ends w token object action now (.error (.unauthenticated reason)) := by
  refine .unauthenticated (Tokenizer.parse_eq_ok_iff.1 hparse).1 ?_ reason
  intro k' hk'
  cases hparse.symm.trans hk'
  exact hstanding

/-- Without faults every request ends, changes no store, and has a result whose condition holds. -/
theorem examine_ends (h : w.stores.Sound) (s : IdentityService) (token : String)
    (object : ObjectRef) (action : String) (now : Instant) :
    ∃ r w', s.examine .calm .background token object action now w = (some r, w') ∧
      w'.stores = w.stores ∧ s.Ends w token object action now r := by
  cases hparse : s.tokenizer.parse token now with
  | error err =>
    obtain ⟨w', hexamine, hstores⟩ := examine_of_error object action (run_identify_of_error hparse)
    exact ⟨_, w', hexamine, hstores, ends_of_parse_error hparse⟩
  | ok k =>
    by_cases hrecord : k.OnRecord w.stores.keys
    · have hrun := run_identify_of_record hparse hrecord
      by_cases htype : k.keyType = .recovery
      · obtain ⟨w', hexamine, hstores⟩ := examine_of_recovery object action hrun htype
        have hstanding : ¬k.InGoodStanding w.stores.keys :=
          fun hstanding => hstanding.not_recovery htype
        exact ⟨_, w', hexamine, hstores, ends_of_not_inGoodStanding hparse hstanding _⟩
      · obtain ⟨d, hjudged, hlate⟩ := exists_judged h s object action k
        obtain ⟨w', hexamine, hstores⟩ := examine_of_judged h hrun htype hjudged
        exact ⟨_, w', hexamine, hstores, .judged hparse ⟨htype, hrecord⟩ hjudged hlate⟩
    · obtain ⟨reason, hrun⟩ := run_identify_of_missing hparse hrecord
      obtain ⟨w', hexamine, hstores⟩ := examine_of_error object action hrun
      have hstanding : ¬k.InGoodStanding w.stores.keys :=
        fun hstanding => hrecord hstanding.on_record
      exact ⟨_, w', hexamine, hstores, ends_of_not_inGoodStanding hparse hstanding reason⟩

theorem Ends.signing_iff (h : s.Ends w token object action now r) :
    (∃ reason, r = .error (.signing reason)) ↔ s.tokenizer.secret.isBlank = true := by
  cases h with
  | unsigned hsecret reason => exact ⟨fun _ => hsecret, fun _ => ⟨reason, rfl⟩⟩
  | unauthenticated hsecret _ _ =>
    rw [hsecret]
    exact ⟨nofun, nofun⟩
  | @judged k d hparse _ _ hlate =>
    rw [(Tokenizer.parse_eq_ok_iff.1 hparse).1]
    refine ⟨?_, nofun⟩
    rintro ⟨reason, htold⟩
    rcases d with e | (g | _)
    · cases hlate e rfl
      cases htold
    · cases htold
    · cases htold

/-- The bearer stays unknown exactly when no key in good standing can be read from the token, and
there is a secret to read it with. -/
theorem Ends.unauthenticated_iff (h : s.Ends w token object action now r) :
    (∃ reason, r = .error (.unauthenticated reason)) ↔ s.tokenizer.secret.isBlank = false ∧
      ∀ k, s.tokenizer.parse token now = .ok k → ¬k.InGoodStanding w.stores.keys := by
  cases h with
  | unsigned hsecret _ =>
    rw [hsecret]
    exact ⟨nofun, nofun⟩
  | unauthenticated hsecret hrefused reason =>
    exact ⟨fun _ => ⟨hsecret, hrefused⟩, fun _ => ⟨reason, rfl⟩⟩
  | @judged k d hparse hstanding _ hlate =>
    refine ⟨?_, fun hrefused => absurd hstanding (hrefused.2 k hparse)⟩
    rintro ⟨reason, htold⟩
    rcases d with e | (g | _)
    · cases hlate e rfl
      cases htold
    · cases htold
    · cases htold

theorem Ends.eq_told (h : s.Ends w token object action now r)
    (hparse : s.tokenizer.parse token now = .ok k) (hstanding : k.InGoodStanding w.stores.keys)
    {d : Result Decision} (hjudged : s.judged w object action k = some d) :
    r = told k d := by
  cases h with
  | unsigned hsecret _ =>
    rw [(Tokenizer.parse_eq_ok_iff.1 hparse).1] at hsecret
    cases hsecret
  | unauthenticated _ hrefused _ => exact absurd hstanding (hrefused k hparse)
  | judged hparse' _ hjudged' _ =>
    cases hparse.symm.trans hparse'
    cases hjudged.symm.trans hjudged'
    rfl

/-- The bearer is told who they are exactly when the key is in good standing and the engine allows
the request. -/
theorem Ends.ok_iff (h : s.Ends w token object action now r) {i : Identity} :
    r = .ok i ↔ ∃ k g, s.tokenizer.parse token now = .ok k ∧ k.InGoodStanding w.stores.keys ∧
      s.judged w object action k = some (.ok (.allow g)) ∧ i = Identity.ofKey k := by
  constructor
  · intro hr
    cases h with
    | unsigned _ _ => cases hr
    | unauthenticated _ _ _ => cases hr
    | @judged k d hparse hstanding hjudged _ =>
      rcases d with e | (g | _)
      · cases hr
      · cases hr
        exact ⟨k, g, hparse, hstanding, hjudged, rfl⟩
      · cases hr
  · rintro ⟨k, g, hparse, hstanding, hjudged, rfl⟩
    exact h.eq_told hparse hstanding hjudged

/-- The bearer is refused the right exactly when the key is in good standing and the engine denies
the request. -/
theorem Ends.unauthorized_iff (h : s.Ends w token object action now r) :
    r = .error .unauthorized ↔ ∃ k, s.tokenizer.parse token now = .ok k ∧
      k.InGoodStanding w.stores.keys ∧
      s.judged w object action k = some (.ok .deny) := by
  constructor
  · intro hr
    cases h with
    | unsigned _ _ => cases hr
    | unauthenticated _ _ _ => cases hr
    | @judged k d hparse hstanding hjudged hlate =>
      rcases d with e | (g | _)
      · cases hlate e rfl
        cases hr
      · cases hr
      · exact ⟨k, hparse, hstanding, hjudged⟩
  · rintro ⟨k, hparse, hstanding, hjudged⟩
    exact h.eq_told hparse hstanding hjudged

/-- Whom the engine allows something, holds the right as a user or inherits it from a group. -/
theorem holds_of_judged (h : w.stores.Sound) {g : Grant}
    (hjudged : s.judged w object action k = some (.ok (.allow g))) :
    let r : AccessRequest := ⟨⟨.user, k.subject⟩, object, action⟩
    r.Holds w.stores.policies r.subject ∨
      ∃ g, w.stores.groups.Inherits r.subject g ∧
        r.Holds w.stores.policies (Group.principal g) := by
  intro r
  have hlimit : s.engine.decisionTimeout ≠ some 0 := by
    intro hzero
    rw [judged_of_no_time hzero] at hjudged
    cases hjudged
  have hmatch : r.firstMatch w.stores = .allow g := by
    rw [judged_of_limit h hlimit] at hjudged
    exact Except.ok.inj (Option.some.inj hjudged)
  rw [← r.firstMatch_isAllowed_iff h, hmatch]
  rfl

/-- After every run of the stores a request is verified as its token, the key in it and the engine
say. -/
theorem verify_answers (calls : List StoreCall) (moment : Millis) (started : Nat)
    (s : IdentityService) (token : String) (object : ObjectRef) (action : String) (now : Instant) :
    let w : World := ⟨Stores.empty.afterAll calls, moment, started⟩
    ∃ v w', s.verify .calm .background token object action now w = (some v, w') ∧
      w'.stores = w.stores ∧
      ((∃ reason, v.result = .error (.signing reason)) ↔ s.tokenizer.secret.isBlank = true) ∧
      ((∃ reason, v.result = .error (.unauthenticated reason)) ↔
        s.tokenizer.secret.isBlank = false ∧
        ∀ k, s.tokenizer.parse token now = .ok k → ¬k.InGoodStanding w.stores.keys) ∧
      (∀ i, v.result = .ok i ↔ ∃ k g, s.tokenizer.parse token now = .ok k ∧
        k.InGoodStanding w.stores.keys ∧
        s.judged w object action k = some (.ok (.allow g)) ∧
          i = ⟨k.subject, k.email, k.keyType, k.id⟩) ∧
      (v.result = .error .unauthorized ↔ ∃ k, s.tokenizer.parse token now = .ok k ∧
        k.InGoodStanding w.stores.keys ∧
        s.judged w object action k = some (.ok .deny)) ∧
      (s.engine.decisionTimeout ≠ some 0 → ∀ k, ∃ d, s.judged w object action k = some (.ok d)) ∧
      ∀ i, v.result = .ok i → i.keyType ≠ .recovery ∧
        let r : AccessRequest := ⟨⟨.user, i.subject⟩, object, action⟩
        (r.Holds w.stores.policies r.subject ∨
          ∃ g, w.stores.groups.Inherits r.subject g ∧
            r.Holds w.stores.policies (Group.principal g)) := by
  intro w
  have hsound : w.stores.Sound := Stores.sound_afterAll calls
  obtain ⟨r, w', hexamine, hstores, hends⟩ := examine_ends hsound s token object action now
  refine ⟨_, w', by rw [verify, hexamine], hstores, hends.signing_iff, hends.unauthenticated_iff,
    fun _ => hends.ok_iff, hends.unauthorized_iff, ?_, ?_⟩
  · exact fun hlimit k => ⟨_, judged_of_limit hsound hlimit object action k⟩
  · intro i hi
    obtain ⟨k, g, -, hstanding, hjudged, rfl⟩ := hends.ok_iff.1 hi
    exact ⟨hstanding.not_recovery, holds_of_judged hsound hjudged⟩

end IdentityService
end AccessControl
