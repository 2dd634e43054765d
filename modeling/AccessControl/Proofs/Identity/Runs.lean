import AccessControl.Proofs.Identity.Verification
import AccessControl.Proofs.KeyStore.Slots
import AccessControl.Proofs.Tokenizer.RoundTrip

/-! # Runs of the identity service

Operations one after another, each at its own moment and under its own context. Only an API key that
is issued and one that is revoked change what is on record, each in its own slot.
-/
namespace AccessControl

def Timed.KeepsStores {α : Type} (m : Timed α) : Prop := ∀ w, (m w).2.stores = w.stores

namespace Timed.KeepsStores

variable {α β : Type} {p : Program α}

theorem ofResult (r : Result α) : KeepsStores (Timed.ofResult r) := fun _ => rfl

theorem bind {m : Timed α} {f : α → Timed β} (hm : m.KeepsStores) (hf : ∀ a, (f a).KeepsStores) :
    KeepsStores (m >>= f) := by
  intro w
  have hstores := hm w
  show (Timed.bind m f w).2.stores = w.stores
  rw [Timed.bind]
  generalize m w = r at hstores
  obtain ⟨_ | (e | a), w'⟩ := r
  · exact hstores
  · exact hstores
  · exact (hf a w').trans hstores

theorem perform (h : p.Makes fun c => c.isQuery = true) (k : Conditions) (ctx : Context) :
    KeepsStores (p.perform k ctx) := h.perform_stores k ctx

end Timed.KeepsStores

namespace IdentityService

variable {s : IdentityService} {w : World} {token keyId : String} {now issuedAt : Instant} {k : Key}

theorem parse_eq_ok_iff : s.parse token now = .ok k ↔ s.tokenizer.parse token now = .ok k := by
  rw [parse]
  cases s.tokenizer.parse token now <;> simp [Except.mapError]

/-- Only a user key that is valid at the moment counts as a login. -/
theorem authenticateIssuer_eq_ok_iff :
    s.authenticateIssuer token now = .ok k ↔ s.tokenizer.parse token now = .ok k ∧
      k.keyType = .user := by
  rw [authenticateIssuer, Result.bind_eq_ok_iff]
  simp only [parse_eq_ok_iff]
  constructor
  · rintro ⟨issuer, hparse, hissuer⟩
    by_cases huser : issuer.keyType = .user
    · rw [if_pos huser] at hissuer
      cases hissuer
      exact ⟨hparse, huser⟩
    · rw [if_neg huser] at hissuer
      cases hissuer
  · rintro ⟨hparse, huser⟩
    exact ⟨k, hparse, if_pos huser⟩

theorem retrieveKey_makes (s : IdentityService) (token keyId : String) (now : Instant) :
    (s.retrieveKey token keyId now).Makes fun c => c.isQuery = true := by
  rw [retrieveKey]
  cases s.authenticateIssuer token now with
  | error e => exact .done _
  | ok issuer => exact .ask rfl

/-- Who presents a token is found out by one look-up at most, in a slot of the issuer of an API
key. -/
theorem identify_makes (s : IdentityService) (token : String) (now : Instant) :
    (s.identify token now).Makes fun c =>
      ∃ k id, s.tokenizer.parse token now = .ok k ∧ k.keyType = .api ∧
        c = .key ⟨k.issuerId, id⟩ := by
  rw [identify, parse]
  cases s.tokenizer.parse token now with
  | error err => exact .done _
  | ok k =>
    refine Program.Makes.bind ?_ fun _ => .done _
    rw [requireRecord]
    by_cases htype : k.keyType = .api
    · rw [if_pos htype]
      cases k.id with
      | none => exact .done _
      | some id =>
        refine .call ⟨k, id, rfl, htype, rfl⟩ fun r => ?_
        rcases r with e | _
        · cases e <;> exact .done _
        · exact .done _
    · rw [if_neg htype]
      exact .done _

theorem identify_keepsStores (s : IdentityService) (token : String) (now : Instant) (k : Conditions)
    (ctx : Context) :
    Timed.KeepsStores ((s.identify token now).perform k ctx) := by
  refine .perform ((s.identify_makes token now).mono ?_) k ctx
  rintro _ ⟨_, _, _, _, rfl⟩
  rfl

theorem examine_keepsStores (s : IdentityService) (k : Conditions) (ctx : Context) (token : String)
    (object : ObjectRef) (action : String) (now : Instant) :
    (s.examine k ctx token object action now).KeepsStores := by
  refine .bind (s.identify_keepsStores token now k ctx) fun i => ?_
  split
  · exact .ofResult _
  · refine .bind (s.engine.authorize_stores k ctx _) fun d => ?_
    cases d <;> exact .ofResult _

theorem stores_verify (s : IdentityService) (k : Conditions) (ctx : Context) (token : String)
    (object : ObjectRef) (action : String) (now : Instant) (w : World) :
    (s.verify k ctx token object action now w).2.stores = w.stores := by
  have hstores := s.examine_keepsStores k ctx token object action now w
  rw [verify]
  generalize s.examine k ctx token object action now w = out at hstores
  obtain ⟨_ | r, w'⟩ := out
  · exact hstores
  · exact hstores

def LogsIn (s : IdentityService) (token : String) (now : Instant) (subject : String) : Prop :=
  ∃ k, s.authenticateIssuer token now = .ok k ∧ k.subject = subject

theorem LogsIn.unique {a b : String} (ha : s.LogsIn token now a) (hb : s.LogsIn token now b) :
    a = b := by
  obtain ⟨k, hk, rfl⟩ := ha
  obtain ⟨k', hk', rfl⟩ := hb
  cases hk.symm.trans hk'
  rfl

structure IsApiKeyFor (k issuer : Key) (keyId : String) : Prop where
  keyType : k.keyType = .api
  id : k.id = some keyId
  issuerId : k.issuerId = issuer.subject
  subject : k.subject = issuer.subject
  email : k.email = issuer.email

theorem apiRequest_eq (s : IdentityService) (issuer : Key) (keyId : String)
    (lifetime : Option Lifetime) (now : Instant) :
    ∃ expiresAt, s.apiRequest issuer keyId lifetime now =
      ⟨issuer.subject, issuer.subject, issuer.email, some keyId, some .api, now, expiresAt⟩ := by
  rw [apiRequest]
  split
  · exact ⟨_, rfl⟩
  · exact ⟨_, rfl⟩

theorem isApiKeyFor_of_issue {issuer : Key} {lifetime : Option Lifetime} {apiToken : String}
    (h : s.tokenizer.issue (s.apiRequest issuer keyId lifetime issuedAt) = .ok (k, apiToken)) :
    IsApiKeyFor k issuer keyId := by
  obtain ⟨expiresAt, hrequest⟩ := s.apiRequest_eq issuer keyId lifetime issuedAt
  rw [hrequest] at h
  obtain ⟨-, -, -, ty, hty, rfl, -⟩ := Tokenizer.issue_eq_ok_iff.1 h
  cases hty
  exact ⟨rfl, rfl, rfl, rfl, rfl⟩

/-- An API key is issued and put on record in a slot of its own, or nothing happens. -/
theorem issueApiKey_cases (s : IdentityService) (token keyId : String) (lifetime : Option Lifetime)
    (now issuedAt : Instant) (ctx : Context) (w : World) :
    let out := (s.issueApiKey token keyId lifetime now issuedAt).perform .calm ctx w
    (∃ e, out.1 = some (.error e) ∧ out.2.stores = w.stores) ∨
    ∃ issuer k apiToken, s.authenticateIssuer token now = .ok issuer ∧
      s.tokenizer.issue (s.apiRequest issuer keyId lifetime issuedAt) = .ok (k, apiToken) ∧
      out.1 = some (.ok (k, apiToken)) ∧ w.stores.keys.keys.get? ⟨issuer.subject, keyId⟩ = none ∧
      out.2.stores =
        { w.stores with keys := ⟨w.stores.keys.keys.insert ⟨issuer.subject, keyId⟩ k⟩ } := by
  rw [issueApiKey]
  cases hissuer : s.authenticateIssuer token now with
  | error e => exact .inl ⟨e, rfl, rfl⟩
  | ok issuer =>
    simp only [andThen]
    cases hissue : s.tokenizer.issue (s.apiRequest issuer keyId lifetime issuedAt) with
    | error e => exact .inl ⟨e, rfl, rfl⟩
    | ok issued =>
      obtain ⟨k, apiToken⟩ := issued
      rcases Program.perform_call_cases (.saveKey k)
        (fun r => (Program.done r).bind fun _ => .done (.ok (k, apiToken)))
        (fun _ => (k, apiToken)) (fun _ => rfl) (fun _ => rfl) ctx w with
        hfailed | ⟨_, st, hserve, hresult, hstores⟩
      · exact .inl hfailed
      · obtain ⟨⟨id, keys⟩, hsave, he⟩ := Result.bind_eq_ok_iff.1 hserve
        obtain ⟨hid, hfree, rfl⟩ := KeyStore.save_eq_ok_iff.1 hsave
        have hkey := isApiKeyFor_of_issue hissue
        cases hid.symm.trans hkey.id
        cases he
        rw [hkey.issuerId] at hfree hstores
        exact .inr ⟨issuer, k, apiToken, rfl, hissue, hresult, hfree, hstores⟩

/-- A key of the caller is removed, or nothing happens. -/
theorem revokeKey_cases (s : IdentityService) (token keyId : String) (now : Instant) (ctx : Context)
    (w : World) :
    let out := (s.revokeKey token keyId now).perform .calm ctx w
    (∃ e, out.1 = some (.error e) ∧ out.2.stores = w.stores) ∨
    ∃ subject, s.LogsIn token now subject ∧ out.1 = some (.ok ()) ∧
      out.2.stores = { w.stores with keys := ⟨w.stores.keys.keys.erase ⟨subject, keyId⟩⟩ } := by
  rw [revokeKey]
  cases hissuer : s.authenticateIssuer token now with
  | error e => exact .inl ⟨e, rfl, rfl⟩
  | ok issuer =>
    rcases Program.perform_call_cases (.removeKey ⟨issuer.subject, keyId⟩) .done id (fun _ => rfl)
      (fun _ => rfl)
      ctx w with hfailed | ⟨_, st, hserve, hresult, hstores⟩
    · exact .inl hfailed
    · obtain ⟨keys, hremove, he⟩ := Result.bind_eq_ok_iff.1 hserve
      obtain ⟨-, rfl⟩ := KeyStore.remove_eq_ok_iff.1 hremove
      cases he
      exact .inr ⟨issuer.subject, ⟨issuer, hissuer, rfl⟩, hresult, hstores⟩

/-- What is asked of the service. An API key comes with the identifier that was generated for it and
the moment at which it was issued. -/
inductive Operation where
  | login (subject : String) (email : Option String)
  | issueRecoveryKey (subject : String) (email : Option String)
  | issueApiKey (token keyId : String) (lifetime : Option Lifetime) (issuedAt : Instant)
  | retrieveKey (token keyId : String)
  | revokeKey (token keyId : String)
  | identify (token : String)
  | verify (token : String) (object : ObjectRef) (action : String)

def Operation.generatedId : Operation → Option String
  | issueApiKey _ keyId .. => some keyId
  | _ => none

structure Event where
  now : Instant
  context : Context
  operation : Operation

def after (s : IdentityService) (w : World) (e : Event) : World :=
  match e.operation with
  | .login .. | .issueRecoveryKey .. => w
  | .issueApiKey token keyId lifetime issuedAt =>
    ((s.issueApiKey token keyId lifetime e.now issuedAt).perform .calm e.context w).2
  | .retrieveKey token keyId => ((s.retrieveKey token keyId e.now).perform .calm e.context w).2
  | .revokeKey token keyId => ((s.revokeKey token keyId e.now).perform .calm e.context w).2
  | .identify token => ((s.identify token e.now).perform .calm e.context w).2
  | .verify token object action => (s.verify .calm e.context token object action e.now w).2

def afterAll (s : IdentityService) (w : World) (events : List Event) : World :=
  events.foldl s.after w

/-- Somebody who has logged in as the issuer of a key revokes it, and is told that it is done. -/
def Revokes (s : IdentityService) (slot : KeySlot) (w : World) (e : Event) : Prop :=
  ∃ token, e.operation = .revokeKey token slot.keyId ∧ s.LogsIn token e.now slot.issuerId ∧
    ((s.revokeKey token slot.keyId e.now).perform .calm e.context w).1 = some (.ok ())

def RevokedIn (s : IdentityService) (slot : KeySlot) : World → List Event → Prop
  | _, [] => False
  | w, e :: rest => s.Revokes slot w e ∨ s.RevokedIn slot (s.after w e) rest

inductive Effect (s : IdentityService) (w : World) (e : Event) : Stores → Prop
  | nothing (hnot : ∀ slot, ¬s.Revokes slot w e) : Effect s w e w.stores
  | records {slot : KeySlot} {k : Key} (hslot : e.operation.generatedId = some slot.keyId)
    (hnot : ∀ slot, ¬s.Revokes slot w e) :
    Effect s w e { w.stores with keys := ⟨w.stores.keys.keys.insert slot k⟩ }
  | revokes {slot : KeySlot} (h : s.Revokes slot w e)
      (honly : ∀ other, s.Revokes other w e → other = slot) :
    Effect s w e { w.stores with keys := ⟨w.stores.keys.keys.erase slot⟩ }

variable {slot : KeySlot} {e : Event}

theorem not_revokes (h : ∀ token keyId, e.operation ≠ .revokeKey token keyId) (slot : KeySlot) :
    ¬s.Revokes slot w e := by
  rintro ⟨token, hoperation, -, -⟩
  exact h _ _ hoperation

theorem effect_of_stores_eq (hstores : (s.after w e).stores = w.stores)
    (hnot : ∀ slot, ¬s.Revokes slot w e) :
    s.Effect w e (s.after w e).stores := by
  rw [hstores]
  exact .nothing hnot

theorem effect_issueApiKey (s : IdentityService) (token keyId : String) (lifetime : Option Lifetime)
    (now issuedAt : Instant) (ctx : Context) (w : World) :
    s.Effect w ⟨now, ctx, .issueApiKey token keyId lifetime issuedAt⟩
      ((s.issueApiKey token keyId lifetime now issuedAt).perform .calm ctx w).2.stores := by
  rcases s.issueApiKey_cases token keyId lifetime now issuedAt ctx w with
    ⟨_, -, hstores⟩ | ⟨issuer, k, apiToken, -, -, -, -, hstores⟩
  · rw [hstores]
    exact .nothing (not_revokes nofun)
  · rw [hstores]
    exact .records rfl (not_revokes nofun)

theorem effect_revokeKey (s : IdentityService) (token keyId : String) (now : Instant)
    (ctx : Context) (w : World) :
    s.Effect w ⟨now, ctx, .revokeKey token keyId⟩
      ((s.revokeKey token keyId now).perform .calm ctx w).2.stores := by
  rcases s.revokeKey_cases token keyId now ctx w with
    ⟨err, hresult, hstores⟩ | ⟨subject, hlogin, hresult, hstores⟩
  · rw [hstores]
    refine .nothing ?_
    rintro slot ⟨_, ⟨⟩, -, hdone⟩
    cases hresult.symm.trans hdone
  · rw [hstores]
    refine .revokes ⟨token, rfl, hlogin, hresult⟩ ?_
    rintro ⟨other, _⟩ ⟨_, ⟨⟩, hother, -⟩
    have hsame : other = subject := hother.unique hlogin
    rw [hsame]

/-- Every event does nothing to the stores, records one key under a generated identifier, or revokes
one. -/
theorem effect_after (s : IdentityService) (w : World) (e : Event) :
    s.Effect w e (s.after w e).stores := by
  obtain ⟨now, ctx, operation⟩ := e
  cases operation with
  | login _ _ => exact .nothing (not_revokes nofun)
  | issueRecoveryKey _ _ => exact .nothing (not_revokes nofun)
  | issueApiKey token keyId lifetime issuedAt =>
    exact s.effect_issueApiKey token keyId lifetime now issuedAt ctx w
  | revokeKey token keyId => exact s.effect_revokeKey token keyId now ctx w
  | retrieveKey token keyId =>
    have hkeeps := (s.retrieveKey_makes token keyId now).perform_stores .calm ctx w
    exact effect_of_stores_eq hkeeps (not_revokes nofun)
  | identify token =>
    exact effect_of_stores_eq (s.identify_keepsStores token now .calm ctx w) (not_revokes nofun)
  | verify token object action =>
    exact effect_of_stores_eq (s.stores_verify .calm ctx token object action now w)
      (not_revokes nofun)

/-- An event leaves a slot as it was unless it revokes the key there, or an API key gets the
identifier of the slot. -/
theorem get?_after (s : IdentityService) (w : World)
    (hfresh : e.operation.generatedId ≠ some slot.keyId) :
    (s.Revokes slot w e → (s.after w e).stores.keys.keys.get? slot = none) ∧
    (¬s.Revokes slot w e → (s.after w e).stores.keys.keys.get? slot =
      w.stores.keys.keys.get? slot) := by
  have heffect := s.effect_after w e
  generalize (s.after w e).stores = st at heffect
  cases heffect with
  | nothing hnot => exact ⟨fun h => absurd h (hnot slot), fun _ => rfl⟩
  | @records other k hother hnot =>
    refine ⟨fun h => absurd h (hnot slot), fun _ => Dict.get?_insert_ne _ ?_ _⟩
    rintro rfl
    exact hfresh hother
  | @revokes other h honly =>
    constructor
    · intro hslot
      rw [honly slot hslot]
      exact Dict.get?_erase_self _ _
    · intro hslot
      refine Dict.get?_erase_ne _ ?_
      rintro rfl
      exact hslot h

/-- A slot that no API key of a run gets is as it was at the end, unless the key there was
revoked. -/
theorem get?_afterAll (s : IdentityService) (w : World) (slot : KeySlot) {events : List Event}
    (hfresh : ∀ e ∈ events, e.operation.generatedId ≠ some slot.keyId) :
    (s.RevokedIn slot w events → (s.afterAll w events).stores.keys.keys.get? slot = none) ∧
    (¬s.RevokedIn slot w events →
      (s.afterAll w events).stores.keys.keys.get? slot = w.stores.keys.keys.get? slot) := by
  induction events generalizing w with
  | nil => exact ⟨nofun, fun _ => rfl⟩
  | cons e rest ih =>
    obtain ⟨hrevoked, hkept⟩ := s.get?_after w (hfresh e (List.mem_cons_self ..))
    obtain ⟨hlater, hsame⟩ := ih (s.after w e) fun d hd => hfresh d (List.mem_cons_of_mem _ hd)
    rw [afterAll, List.foldl_cons, ← afterAll, RevokedIn]
    constructor
    · rintro (he | hrest)
      · by_cases hrest : s.RevokedIn slot (s.after w e) rest
        · exact hlater hrest
        · rw [hsame hrest, hrevoked he]
      · exact hlater hrest
    · intro hnot
      rw [not_or] at hnot
      rw [hsame hnot.2, hkept hnot.1]

end IdentityService
end AccessControl
