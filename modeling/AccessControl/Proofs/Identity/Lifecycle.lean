import AccessControl.Proofs.Identity.Runs
import AccessControl.Proofs.Tokenizer.Expiry

/-! # The life of an API key

From its issue on an API key identifies its bearer until it expires or is revoked. While it is on
record, whoever has logged in as its subject can look it up, as it was issued.
-/
namespace AccessControl.IdentityService

variable {s : IdentityService} {w : World} {token keyId apiToken : String}
  {now issuedAt moment : Instant} {k issuer : Key} {lifetime : Option Lifetime}

theorem isRegular_apiRequest (hissued : issuedAt.IsRegular) :
    ∀ e, (s.apiRequest issuer keyId lifetime issuedAt).expiresAt = some e → e.IsRegular := by
  intro e he
  rw [apiRequest] at he
  cases hlifetime : lifetime.orElse fun _ => s.lifetimes.api with
  | none =>
    rw [hlifetime] at he
    cases he
  | some l =>
    rw [hlifetime] at he
    exact KeyRequest.isRegular_expiresIn hissued he

theorem parse_apiKey {k' : Key} (hissued : issuedAt.IsRegular)
    (h : s.tokenizer.issue (s.apiRequest issuer keyId lifetime issuedAt) = .ok (k, apiToken)) :
    s.tokenizer.parse apiToken moment = .ok k' ↔
      k' = k ∧ ∀ e, k.expiresAt = some e → moment.IsBefore e := by
  refine Tokenizer.parse_issued_eq_ok_iff ?_ (isRegular_apiRequest hissued) h
  obtain ⟨expiresAt, hrequest⟩ := s.apiRequest_eq issuer keyId lifetime issuedAt
  rw [hrequest]
  exact hissued

theorem onRecord_iff (hkey : IsApiKeyFor k issuer keyId) {keys : KeyStore} :
    k.OnRecord keys ↔ keys.keys.get? ⟨k.subject, keyId⟩ ≠ none := by
  rw [hkey.subject, ← hkey.issuerId]
  constructor
  · intro h
    obtain ⟨id, hid, hrecord⟩ := h hkey.keyType
    cases hid.symm.trans hkey.id
    exact hrecord
  · exact fun h _ => ⟨keyId, hkey.id, h⟩

theorem identify_unauthenticated (hsecret : s.tokenizer.secret.isBlank = false)
    (hrefused : ∀ k, s.tokenizer.parse token moment = .ok k → ¬k.OnRecord w.stores.keys) :
    ∃ reason, ((s.identify token moment).perform .calm .background w).1 =
      some (.error (.unauthenticated reason)) := by
  rw [Program.perform_background]
  cases hparse : s.tokenizer.parse token moment with
  | error err =>
    rw [run_identify_of_error hparse]
    rcases Tokenizer.parse_error_cases hsecret hparse with rfl | ⟨reason, rfl⟩
    · exact ⟨_, rfl⟩
    · exact ⟨_, rfl⟩
  | ok k =>
    obtain ⟨reason, hrun⟩ := run_identify_of_missing hparse (hrefused k hparse)
    exact ⟨reason, by rw [hrun]⟩

theorem identify_bearer (hparse : s.tokenizer.parse token moment = .ok k)
    (hrecord : k.OnRecord w.stores.keys) :
    ((s.identify token moment).perform .calm .background w).1 = some (.ok (Identity.ofKey k)) := by
  rw [Program.perform_background, run_identify_of_record hparse hrecord]

theorem issueApiKey_of_free (hissuer : s.authenticateIssuer token now = .ok issuer)
    (hsigned : s.tokenizer.issue (s.apiRequest issuer keyId lifetime issuedAt) = .ok (k, apiToken))
    (hfree : w.stores.keys.keys.get? ⟨issuer.subject, keyId⟩ = none) :
    ((s.issueApiKey token keyId lifetime now issuedAt).perform .calm .background w).1 =
      some (.ok (k, apiToken)) := by
  have hkey := isApiKeyFor_of_issue hsigned
  rw [← hkey.issuerId] at hfree
  rw [Program.perform_background, issueApiKey, hissuer, andThen, hsigned]
  show some ((Program.call (.saveKey k) _).run w.stores).1 = _
  rw [Program.run, Stores.serve, KeyStore.save_eq_ok_iff.2 ⟨hkey.id, hfree, rfl⟩]
  rfl

theorem retrieveKey_recorded {subject : String} (hlogin : s.LogsIn token moment subject)
    (hrecord : w.stores.keys.keys.get? ⟨subject, keyId⟩ = some k) :
    ((s.retrieveKey token keyId moment).perform .calm .background w).1 = some (.ok k) := by
  obtain ⟨issuer, hissuer, rfl⟩ := hlogin
  rw [Program.perform_background, retrieveKey, hissuer]
  show some ((Program.ask _).run w.stores).1 = _
  rw [Program.ask, run_key, KeyStore.retrieve, hrecord]
  rfl

theorem revokeKey_recorded {subject : String} (hlogin : s.LogsIn token moment subject)
    (hrecord : w.stores.keys.keys.get? ⟨subject, keyId⟩ = some k) :
    ((s.revokeKey token keyId moment).perform .calm .background w).1 = some (.ok ()) := by
  obtain ⟨issuer, hissuer, rfl⟩ := hlogin
  rw [Program.perform_background, revokeKey, hissuer]
  show some ((Program.call (.removeKey _) _).run w.stores).1 = _
  rw [Program.run, Stores.serve, KeyStore.remove_eq_ok_iff.2 ⟨⟨k, hrecord⟩, rfl⟩]
  rfl

/-- What there is to know after an API key was issued: the key in its slot, and a token that reads
as it. -/
theorem recorded_of_issue {ctx : Context} (hissued : issuedAt.IsRegular)
    (hissue : ((s.issueApiKey token keyId lifetime now issuedAt).perform .calm ctx w).1 =
      some (.ok (k, apiToken))) :
    s.tokenizer.secret.isBlank = false ∧
    (∃ issuer, s.authenticateIssuer token now = .ok issuer ∧ IsApiKeyFor k issuer keyId) ∧
    (s.after w ⟨now, ctx, .issueApiKey token keyId lifetime issuedAt⟩).stores.keys.keys.get?
      ⟨k.subject, keyId⟩ = some k ∧
    ∀ moment k', s.tokenizer.parse apiToken moment = .ok k' ↔
      k' = k ∧ ∀ e, k.expiresAt = some e → moment.IsBefore e := by
  rcases s.issueApiKey_cases token keyId lifetime now issuedAt ctx w with
    ⟨e, hfailed, -⟩ | ⟨issuer, k', apiToken', hissuer, hsigned, hresult, -, hstores⟩
  · cases hfailed.symm.trans hissue
  · cases hresult.symm.trans hissue
    have hkey := isApiKeyFor_of_issue hsigned
    refine ⟨(Tokenizer.issue_eq_ok_iff.1 hsigned).1, ⟨issuer, hissuer, hkey⟩, ?_,
      fun _ _ => parse_apiKey hissued hsigned⟩
    rw [after, hstores, hkey.subject]
    exact Dict.get?_insert_self _ _ _

/-- However a run goes on after an API key was issued, in whatever world and by whomever: its token
identifies its bearer exactly until it expires or is revoked with a login of its subject, and is
refused from then on. Until it is revoked, every login of that subject finds it as it was issued. -/
theorem apiKey_lifecycle (s : IdentityService) (w : World) (token keyId : String)
    (lifetime : Option Lifetime) (now issuedAt : Instant) (ctx : Context) (k : Key)
    (apiToken : String) (later : List Event) (hissued : issuedAt.IsRegular)
    (hissue : ((s.issueApiKey token keyId lifetime now issuedAt).perform .calm ctx w).1 =
      some (.ok (k, apiToken)))
    (hfresh : ∀ e ∈ later, e.operation.generatedId ≠ some keyId) :
    let issue : Event := ⟨now, ctx, .issueApiKey token keyId lifetime issuedAt⟩
    let revoked := s.RevokedIn ⟨k.subject, keyId⟩ (s.after w issue) later
    let final := s.afterAll w (issue :: later)
    (∃ issuer, s.authenticateIssuer token now = .ok issuer ∧ IsApiKeyFor k issuer keyId) ∧
    (∀ moment,
      let answer := ((s.identify apiToken moment).perform .calm .background final).1
      let live := ∀ e, k.expiresAt = some e → moment.IsBefore e
      (∀ i, answer = some (.ok i) ↔ live ∧ ¬revoked ∧ i = Identity.ofKey k) ∧
      (¬live ∨ revoked → ∃ reason, answer = some (.error (.unauthenticated reason)))) ∧
    (¬revoked → ∀ loginToken moment, s.LogsIn loginToken moment k.subject →
      ((s.retrieveKey loginToken keyId moment).perform .calm .background final).1 = some (.ok k) ∧
      ((s.revokeKey loginToken keyId moment).perform .calm .background final).1 =
        some (.ok ())) := by
  intro issue revoked final
  obtain ⟨hsecret, ⟨issuer, hissuer, hkey⟩, hrecorded, hparse⟩ := recorded_of_issue hissued hissue
  obtain ⟨hgone, hkept⟩ := s.get?_afterAll (s.after w issue) ⟨k.subject, keyId⟩ hfresh
  have hfound : ¬revoked → final.stores.keys.keys.get? ⟨k.subject, keyId⟩ = some k :=
    fun hnot => (hkept hnot).trans hrecorded
  have hlost : revoked → ¬k.OnRecord final.stores.keys :=
    fun hrevoked hrecord => (onRecord_iff hkey).1 hrecord (hgone hrevoked)
  refine ⟨⟨issuer, hissuer, hkey⟩, ?_, fun hnot loginToken moment hlogin =>
    ⟨retrieveKey_recorded hlogin (hfound hnot), revokeKey_recorded hlogin (hfound hnot)⟩⟩
  intro moment answer live
  have haccepted : live → ¬revoked → answer = some (.ok (Identity.ofKey k)) := by
    intro hlive hnot
    refine identify_bearer ((hparse moment k).2 ⟨rfl, hlive⟩) ((onRecord_iff hkey).2 ?_)
    rw [hfound hnot]
    exact Option.some_ne_none k
  have hrefused : ¬live ∨ revoked → ∃ reason, answer = some (.error (.unauthenticated reason)) := by
    intro hover
    refine identify_unauthenticated hsecret fun k' hk' => ?_
    obtain ⟨rfl, hlive⟩ := (hparse moment k').1 hk'
    rcases hover with hdead | hrevoked
    · exact absurd hlive hdead
    · exact hlost hrevoked
  refine ⟨fun i => ⟨?_, ?_⟩, hrefused⟩
  · intro hi
    by_cases hover : ¬live ∨ revoked
    · obtain ⟨reason, hreason⟩ := hrefused hover
      cases hi.symm.trans hreason
    · rw [not_or, not_not] at hover
      cases hi.symm.trans (haccepted hover.1 hover.2)
      exact ⟨hover.1, hover.2, rfl⟩
  · rintro ⟨hlive, hnot, rfl⟩
    exact haccepted hlive hnot

def sampleService : IdentityService := ⟨⟨⟨"key"⟩⟩, ⟨none⟩, Lifetimes.default.toKeyLifetimes⟩

def sampleLogin : KeyRequest :=
  ⟨"ann", "ann", some "ann@example.com", none, some .user, ⟨1767225600, 0⟩, some ⟨1767261600, 0⟩⟩

theorem sampleService_login : ∃ token,
    sampleService.login "ann" (some "ann@example.com") ⟨1767225600, 0⟩ =
      .ok (Key.ofRequest sampleLogin .user, token) ∧
    ∀ now : Instant, now.IsBefore ⟨1767261600, 0⟩ →
      sampleService.authenticateIssuer token now = .ok (Key.ofRequest sampleLogin .user) := by
  have hissued : sampleLogin.issuedAt.IsRegular := ⟨by decide, by decide⟩
  have hexpires : ∀ e, sampleLogin.expiresAt = some e →
      e.IsRegular ∧ 1 ≤ e.seconds ∧ e.seconds ≤ 253402300799 := by
    intro e he
    cases he
    exact ⟨⟨by decide, by decide⟩, by decide⟩
  obtain ⟨token, hissue⟩ : ∃ token,
      sampleService.tokenizer.issue sampleLogin = .ok (Key.ofRequest sampleLogin .user, token) :=
    ⟨_, Tokenizer.issue_eq_ok_iff.2
      ⟨by decide, by decide, fun e he => (hexpires e he).2, .user, rfl, rfl, rfl⟩⟩
  refine ⟨token, ?_, fun now hnow => authenticateIssuer_eq_ok_iff.2 ⟨?_, rfl⟩⟩
  · have hrequest :
      KeyRequest.expiresIn { sampleLogin with expiresAt := none } (Lifetime.ofSeconds 36000) =
        sampleLogin := by decide
    rw [login, issueSessionKey, if_neg (by decide), ← hissue, ← hrequest]
    rfl
  · refine (Tokenizer.parse_issued hissued (fun e he => (hexpires e he).1) hissue).2 ?_
    intro e he
    cases he
    exact hnow

/-- Somebody logs in, issues a key and revokes it. -/
theorem sampleService_revokes : (Instant.mk 1767225602 500000000).IsRegular ∧
    ∃ user token k apiToken,
      sampleService.login "ann" (some "ann@example.com") ⟨1767225600, 0⟩ = .ok (user, token) ∧
      let w : World := ⟨Stores.empty, 0, 0⟩
      let issue : Event :=
        ⟨⟨1767225601, 0⟩, .background, .issueApiKey token "k1" none ⟨1767225602, 500000000⟩⟩
      let revoke : Event := ⟨⟨1767225700, 0⟩, .background, .revokeKey token "k1"⟩
      ((sampleService.issueApiKey token "k1" none ⟨1767225601, 0⟩ ⟨1767225602, 500000000⟩).perform
        .calm .background w).1 = some (.ok (k, apiToken)) ∧
      (∀ e ∈ [revoke], e.operation.generatedId ≠ some "k1") ∧
      ((sampleService.identify apiToken ⟨1767225650, 0⟩).perform .calm .background
        (sampleService.afterAll w [issue])).1 = some (.ok (Identity.ofKey k)) ∧
      ∃ reason, ((sampleService.identify apiToken ⟨1767225800, 0⟩).perform .calm .background
        (sampleService.afterAll w [issue, revoke])).1 =
          some (.error (.unauthenticated reason)) := by
  have hregular : (Instant.mk 1767225602 500000000).IsRegular := ⟨by decide, by decide⟩
  obtain ⟨token, huser, hlogin⟩ := sampleService_login
  have hissuer := hlogin ⟨1767225601, 0⟩ (by decide)
  obtain ⟨k, apiToken, hlive, hsigned⟩ : ∃ k apiToken, k.expiresAt = none ∧
      sampleService.tokenizer.issue
        (sampleService.apiRequest (Key.ofRequest sampleLogin .user) "k1" none
        ⟨1767225602, 500000000⟩) = .ok (k, apiToken) :=
    ⟨_, _, rfl, Tokenizer.issue_eq_ok_iff.2 ⟨by decide, by decide, nofun, .api, rfl, rfl, rfl⟩⟩
  have hissue := issueApiKey_of_free (w := ⟨Stores.empty, 0, 0⟩) hissuer hsigned rfl
  have hloginLater : sampleService.LogsIn token ⟨1767225700, 0⟩ k.subject :=
    ⟨_, hlogin _ (by decide), (isApiKeyFor_of_issue hsigned).subject.symm⟩
  have hfresh : ∀ e ∈ [Event.mk ⟨1767225700, 0⟩ .background (.revokeKey token "k1")],
      e.operation.generatedId ≠ some "k1" := by
    intro e he
    rw [List.mem_singleton.1 he]
    exact nofun
  obtain ⟨-, hbefore, hrecorded⟩ :=
    apiKey_lifecycle sampleService ⟨Stores.empty, 0, 0⟩ token "k1" none _ _
      .background k apiToken []
      hregular hissue nofun
  obtain ⟨-, hafter, -⟩ :=
    apiKey_lifecycle sampleService ⟨Stores.empty, 0, 0⟩ token "k1" none _ _ .background k apiToken _
      hregular hissue hfresh
  refine ⟨hregular, _, token, k, apiToken, huser, hissue, hfresh, ?_, ?_⟩
  · refine ((hbefore _).1 _).2 ⟨?_, id, rfl⟩
    rw [hlive]
    exact nofun
  · exact (hafter _).2 (.inr (.inl ⟨token, rfl, hloginLater, (hrecorded id token _ hloginLater).2⟩))

end AccessControl.IdentityService
