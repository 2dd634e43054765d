import AccessControl.Proofs.Identity.Runs

/-! # Everybody manages their own keys

Whoever issues, looks up or revokes an API key has logged in, and touches nothing but a slot of
their own. So what others have on record does not matter to them, and what they do does not matter
to the API keys of others.
-/
namespace AccessControl

namespace KeyStore

/-- Two stores have the same keys of an issuer. -/
def AgreeOn (issuer : String) (s s' : KeyStore) : Prop :=
  ∀ id, s'.keys.get? ⟨issuer, id⟩ = s.keys.get? ⟨issuer, id⟩

variable {st st' : Stores} {c : StoreCall} {slot : KeySlot}

theorem AgreeOn.after (hc : c.Concerns slot) (h : AgreeOn slot.issuerId st.keys st'.keys) :
    st'.reply c = st.reply c ∧ AgreeOn slot.issuerId (st.after c).keys (st'.after c).keys := by
  obtain ⟨f, hf⟩ := hc.effect
  obtain ⟨hreply, hhere, helsewhere⟩ := hf st
  obtain ⟨hreply', hhere', helsewhere'⟩ := hf st'
  have hslot : st'.keys.keys.get? slot = st.keys.keys.get? slot := h slot.keyId
  refine ⟨by rw [hreply', hreply, hslot], fun id => ?_⟩
  by_cases hid : ⟨slot.issuerId, id⟩ = slot
  · rw [hid, hhere', hhere, hslot]
  · rw [helsewhere' _ hid, helsewhere _ hid, h id]

end KeyStore

inductive KeyOperation where
  | issue (keyId : String) (lifetime : Option Lifetime) (issuedAt : Instant)
  | retrieve (keyId : String)
  | revoke (keyId : String)

namespace KeyOperation

def keyId : KeyOperation → String
  | issue keyId .. | retrieve keyId | revoke keyId => keyId

abbrev Reply : KeyOperation → Type
  | issue .. => Key × String
  | retrieve _ => Key
  | revoke _ => Unit

def shown : (o : KeyOperation) → o.Reply → Option Key
  | issue .., issued => some issued.1
  | retrieve _, k => some k
  | revoke _, _ => none

end KeyOperation

namespace IdentityService

variable {s : IdentityService} {w : World} {st : Stores} {token a : String} {now : Instant}
  {k : Conditions} {ctx : Context} {o : KeyOperation} {issuer : Key} {err : AuthError}

def manage (s : IdentityService) (token : String) (now : Instant) :
    (o : KeyOperation) → Program o.Reply
  | .issue keyId lifetime issuedAt => s.issueApiKey token keyId lifetime now issuedAt
  | .retrieve keyId => s.retrieveKey token keyId now
  | .revoke keyId => s.revokeKey token keyId now

theorem manage_of_error (h : s.authenticateIssuer token now = .error err) (o : KeyOperation) :
    s.manage token now o = .done (.error err) := by
  cases o <;> simp only [manage, issueApiKey, retrieveKey, revokeKey, h, andThen]

/-- Whoever is logged in makes calls on one slot only, theirs with the identifier of the operation.
-/
theorem manage_makes (h : s.authenticateIssuer token now = .ok issuer) (o : KeyOperation) :
    (s.manage token now o).Makes (StoreCall.Concerns ⟨issuer.subject, o.keyId⟩) := by
  cases o with
  | issue keyId lifetime issuedAt =>
    simp only [manage, issueApiKey, h, andThen]
    cases hissue : s.tokenizer.issue (s.apiRequest issuer keyId lifetime issuedAt) with
    | error e => exact .done _
    | ok issued =>
      have hkey := isApiKeyFor_of_issue hissue
      exact .bind (.ask ⟨hkey.issuerId, hkey.id⟩) fun _ => .done _
  | retrieve keyId =>
    simp only [manage, retrieveKey, h, andThen]
    exact .ask rfl
  | revoke keyId =>
    simp only [manage, revokeKey, h, andThen]
    exact .ask rfl

/-- A key that is shown was issued by the caller: it was made for them, or it is the one on record
in their slot, since a look-up is never distorted. -/
theorem issuerId_of_shown (hfiled : w.stores.keys.Filed)
    (h : s.authenticateIssuer token now = .ok issuer) {reply : o.Reply} {key : Key}
    (hreply : ((s.manage token now o).perform k ctx w).1 = some (.ok reply))
    (hkey : o.shown reply = some key) : key.issuerId = issuer.subject := by
  cases o with
  | issue keyId lifetime issuedAt =>
    simp only [manage, issueApiKey, h, andThen] at hreply
    cases hissue : s.tokenizer.issue (s.apiRequest issuer keyId lifetime issuedAt) with
    | error e =>
      rw [hissue] at hreply
      cases hreply
    | ok issued =>
      rw [hissue] at hreply
      rcases Program.perform_ask_cases k ctx (.saveKey issued.1) (fun _ => pure issued) w with
        ⟨-, hfailed⟩ | ⟨_, w', -, hperform⟩
      · exact absurd hreply (hfailed reply)
      · cases hkey
        cases (congrArg Prod.fst hperform).symm.trans hreply
        exact (isApiKeyFor_of_issue hissue).issuerId
  | retrieve keyId =>
    simp only [manage, retrieveKey, h, andThen] at hreply
    have hmake : (Program.make k ctx (.key ⟨issuer.subject, keyId⟩) w).1 = some (.ok reply) := by
      rw [← Program.perform_ask]
      exact hreply
    rcases Program.make_cases k ctx (.key ⟨issuer.subject, keyId⟩) w with
      ⟨-, hfailed⟩ | ⟨found, _, hserve, -, hanswer⟩
    · exact absurd hmake (hfailed reply)
    · cases hanswer.symm.trans hmake
      cases hkey
      obtain ⟨_, hfound, he⟩ := Result.bind_eq_ok_iff.1 hserve
      cases he
      exact (hfiled _ _ (KeyStore.retrieve_eq_ok_iff.1 hfound)).1
  | revoke keyId => cases hkey

/-- Only what is in the slot of the caller and of the identifier can change. -/
theorem get?_manage (h : s.authenticateIssuer token now = .ok issuer) {slot : KeySlot}
    (hslot : slot ≠ ⟨issuer.subject, o.keyId⟩) :
    ((s.manage token now o).perform k ctx w).2.stores.keys.keys.get? slot =
      w.stores.keys.keys.get? slot := by
  refine (s.manage_makes h o).perform_keeps
    (P := fun st => st.keys.keys.get? slot = w.stores.keys.keys.get? slot)
    (fun hc hsame => ?_) rfl
  obtain ⟨f, hf⟩ := hc.effect
  rw [(hf _).2.2 slot hslot, hsame]

theorem filed_manage (hfiled : w.stores.keys.Filed)
    (h : s.authenticateIssuer token now = .ok issuer) :
    ((s.manage token now o).perform k ctx w).2.stores.keys.Filed :=
  (s.manage_makes h o).perform_keeps (P := fun st => st.keys.Filed)
    (fun _ hst => hst.after _) hfiled

/-- What an operation changes is in the slot of the caller and of the identifier, and the keys that
come or go there or are shown are ones that the caller has issued. -/
structure OwnKeysOnly (issuer : Key) (o : KeyOperation) (before after : KeyStore)
    (answer : Option (Result o.Reply)) : Prop where
  slot : ∀ slot, after.keys.get? slot ≠ before.keys.get? slot → slot = ⟨issuer.subject, o.keyId⟩
  issued : ∀ slot key, after.keys.get? slot ≠ before.keys.get? slot →
    before.keys.get? slot = some key ∨ after.keys.get? slot = some key →
      key.issuerId = issuer.subject
  shown : ∀ reply key, answer = some (.ok reply) → o.shown reply = some key →
    key.issuerId = issuer.subject

/-- An operation has to do with keys of the caller alone, because a key is filed under its issuer,
before it is removed as after it is recorded. -/
theorem ownKeysOnly_manage (hfiled : w.stores.keys.Filed)
    (h : s.authenticateIssuer token now = .ok issuer) (o : KeyOperation) (k : Conditions)
    (ctx : Context) :
    let out := (s.manage token now o).perform k ctx w
    OwnKeysOnly issuer o w.stores.keys out.2.stores.keys out.1 := by
  intro out
  have hslot : ∀ slot, out.2.stores.keys.keys.get? slot ≠ w.stores.keys.keys.get? slot →
      slot = ⟨issuer.subject, o.keyId⟩ := by
    intro slot hchanged
    by_contra hother
    exact hchanged (get?_manage h hother)
  refine ⟨hslot, ?_, fun reply key => issuerId_of_shown hfiled h⟩
  intro slot key hchanged hkey
  have hissuer : key.issuerId = slot.issuerId := hkey.elim (fun hkey => (hfiled _ _ hkey).1)
    fun hkey => (filed_manage hfiled h _ _ hkey).1
  rw [hissuer, hslot slot hchanged]

theorem exists_issuer_of_manage
    (hdone : (∃ reply, ((s.manage token now o).perform k ctx w).1 = some (.ok reply)) ∨
      ((s.manage token now o).perform k ctx w).2.stores.keys ≠ w.stores.keys) :
    ∃ issuer, s.authenticateIssuer token now = .ok issuer := by
  cases h : s.authenticateIssuer token now with
  | ok issuer => exact ⟨issuer, rfl⟩
  | error err =>
    rw [manage_of_error h] at hdone
    obtain ⟨_, ⟨⟩⟩ | hchanged := hdone
    exact absurd rfl hchanged

/-- If a token is read at all, its subject is this one. -/
def SpeaksFor (s : IdentityService) (subject token : String) (now : Instant) : Prop :=
  ∀ k, s.tokenizer.parse token now = .ok k → k.subject = subject

theorem subject_of_speaksFor (hspeaks : s.SpeaksFor a token now)
    (h : s.authenticateIssuer token now = .ok issuer) :
    issuer.subject = a := hspeaks issuer (authenticateIssuer_eq_ok_iff.1 h).1

/-- Whoever speaks for a subject gets the same answer as long as the keys of that subject are the
same. -/
theorem manage_related (hspeaks : s.SpeaksFor a token now)
    (hagree : KeyStore.AgreeOn a w.stores.keys st.keys) :
    ((s.manage token now o).perform k ctx { w with stores := st }).1 =
      ((s.manage token now o).perform k ctx w).1 ∧
    KeyStore.AgreeOn a ((s.manage token now o).perform k ctx w).2.stores.keys
      ((s.manage token now o).perform k ctx { w with stores := st }).2.stores.keys := by
  cases h : s.authenticateIssuer token now with
  | error err =>
    rw [manage_of_error h]
    exact ⟨rfl, hagree⟩
  | ok issuer =>
    rw [← subject_of_speaksFor hspeaks h] at hagree ⊢
    exact (manage_makes h o).perform_related
      (R := fun st st' => KeyStore.AgreeOn issuer.subject st.keys st'.keys)
      (fun hc hst => hst.after hc) hagree

theorem agreeOn_manage (hspeaks : s.SpeaksFor a token now) {b : String} (hb : b ≠ a) :
    KeyStore.AgreeOn b w.stores.keys ((s.manage token now o).perform k ctx w).2.stores.keys := by
  cases h : s.authenticateIssuer token now with
  | error err =>
    rw [manage_of_error h]
    exact fun _ => rfl
  | ok issuer =>
    rw [← subject_of_speaksFor hspeaks h] at hb
    intro id
    refine get?_manage h ?_
    rintro ⟨⟩
    exact hb rfl

/-- The keys of an issuer decide only who bears the API keys of that issuer. -/
theorem identify_related
    (hother : ∀ k, s.tokenizer.parse token now = .ok k → k.keyType = .api → k.issuerId ≠ a)
    (hagree : ∀ b, b ≠ a → KeyStore.AgreeOn b w.stores.keys st.keys) :
    ((s.identify token now).perform k ctx { w with stores := st }).1 =
      ((s.identify token now).perform k ctx w).1 := by
  refine ((s.identify_makes token now).perform_related
    (R := fun st st' => ∀ b, b ≠ a → KeyStore.AgreeOn b st.keys st'.keys) ?_ hagree).1
  rintro st st' _ ⟨key, id, hparse, htype, rfl⟩ hst
  have hslot := hst key.issuerId (hother key hparse htype)
  have hkey : StoreCall.Concerns ⟨key.issuerId, id⟩ (.key ⟨key.issuerId, id⟩) := rfl
  refine ⟨(KeyStore.AgreeOn.after hkey hslot).1, ?_⟩
  rwa [Stores.after_query rfl, Stores.after_query rfl]

structure KeyEvent where
  now : Instant
  conditions : Conditions
  context : Context
  token : String
  operation : KeyOperation

def managed (s : IdentityService) (w : World) (e : KeyEvent) : World :=
  ((s.manage e.token e.now e.operation).perform e.conditions e.context w).2

def managedAll (s : IdentityService) (w : World) (events : List KeyEvent) : World :=
  events.foldl s.managed w

theorem agreeOn_managedAll {events : List KeyEvent}
    (hspeaks : ∀ e ∈ events, s.SpeaksFor a e.token e.now) {b : String} (hb : b ≠ a) :
    KeyStore.AgreeOn b w.stores.keys (s.managedAll w events).stores.keys := by
  induction events generalizing w with
  | nil => exact fun _ => rfl
  | cons e rest ih =>
    have hstep : KeyStore.AgreeOn b w.stores.keys (s.managed w e).stores.keys :=
      agreeOn_manage (hspeaks e (List.mem_cons_self ..)) hb
    have hrest := ih (w := s.managed w e) fun d hd => hspeaks d (List.mem_cons_of_mem _ hd)
    exact fun id => (hrest id).trans (hstep id)

/-- After every run of the stores, and under whatever conditions: only who has logged in is answered
or changes what is on record, and all that is recorded, shown or removed are keys of theirs. Who
speaks for a subject is answered by the keys of that subject alone, and leaves those of others as
they are. So nothing that is asked in the name of a subject matters to who bears a token, unless it
is an API key of that subject. -/
theorem key_management_confined (s : IdentityService) (calls others : List StoreCall)
    (moment : Millis) (started : Nat) :
    let w : World := ⟨Stores.empty.afterAll calls, moment, started⟩
    let w' : World := ⟨Stores.empty.afterAll others, moment, started⟩
    (∀ (o : KeyOperation) token now k ctx,
      let out := (s.manage token now o).perform k ctx w
      (∃ reply, out.1 = some (.ok reply)) ∨ out.2.stores.keys ≠ w.stores.keys →
      ∃ issuer, s.tokenizer.parse token now = .ok issuer ∧ issuer.keyType = .user ∧
        OwnKeysOnly issuer o w.stores.keys out.2.stores.keys out.1) ∧
    (∀ a (o : KeyOperation) token now k ctx, s.SpeaksFor a token now →
      let out := (s.manage token now o).perform k ctx w
      let out' := (s.manage token now o).perform k ctx w'
      (KeyStore.AgreeOn a w.stores.keys w'.stores.keys →
        out'.1 = out.1 ∧ KeyStore.AgreeOn a out.2.stores.keys out'.2.stores.keys) ∧
      ∀ b, b ≠ a → KeyStore.AgreeOn b w.stores.keys out.2.stores.keys) ∧
    ∀ a (events : List KeyEvent), (∀ e ∈ events, s.SpeaksFor a e.token e.now) → ∀ token now,
      (∀ k, s.tokenizer.parse token now = .ok k → k.keyType = .api → k.issuerId ≠ a) →
        ∀ k ctx moment started,
      ((s.identify token now).perform k ctx ⟨(s.managedAll w events).stores, moment, started⟩).1 =
        ((s.identify token now).perform k ctx ⟨w.stores, moment, started⟩).1 := by
  intro w w'
  refine ⟨?_, ?_, ?_⟩
  · intro o token now k ctx out hdone
    obtain ⟨issuer, h⟩ := exists_issuer_of_manage hdone
    obtain ⟨hparse, huser⟩ := authenticateIssuer_eq_ok_iff.1 h
    exact ⟨issuer, hparse, huser, ownKeysOnly_manage (KeyStore.filed_afterAll calls) h o k ctx⟩
  · intro a o token now k ctx hspeaks out out'
    refine ⟨?_, ?_⟩
    · exact fun hagree => manage_related hspeaks hagree
    · exact fun b hb => agreeOn_manage hspeaks hb
  · intro a events hspeaks token now hother k ctx moment started
    exact identify_related (w := ⟨w.stores, moment, started⟩) hother fun b hb =>
      agreeOn_managedAll hspeaks hb

end IdentityService
end AccessControl
