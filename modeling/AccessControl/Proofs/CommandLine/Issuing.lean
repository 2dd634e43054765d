import AccessControl.CommandLine
import AccessControl.Proofs.Settings.Sources
import AccessControl.Proofs.Tokenizer.Expiry

/-! # Issuing under settings

Settings that were accepted never stand in the way of a token. The bounds on lifetimes keep an
expiry within the calendar and the years of four digits for as long as the clock is a hundred years
before their end, and a secret that passed the check signs. So the command to issue a key prints a
token, and the token lives for the configured lifetime.
-/
namespace AccessControl

theorem Instant.OnCalendar.exists_add? {t : Instant} {n : Nat} (h : t.OnCalendar)
    (hn : Instant.inCalendar (t.seconds + n) = true) :
    ∃ e, t.add? (n * Instant.nanosPerSecond) = some e := by
  cases hstays : t.staysInserted (n * Instant.nanosPerSecond) with
  | true => exact ⟨_, Instant.add?_eq_some_iff.2 (.inl ⟨hstays, rfl⟩)⟩
  | false =>
    have hpassed := h.passed_div hstays
    exact ⟨_, Instant.add?_eq_some_iff.2 (.inr ⟨hstays, by rw [hpassed]; exact hn, rfl⟩)⟩

def Instant.secondAfter (t : Instant) (n : Nat) : Instant := ⟨t.seconds + n, 0⟩

namespace CommandLine
open Tokenizer (greatestExpiry)
open Settings (greatestLifetime IsLifetime Acceptable)

variable {s : Start} {settings : Settings} {subject : String} {kind : KeyType}
  {email issuer id : Option String} {n : Nat}

/-- A clock that shows a time from 1970 on, and the longest lifetime before the end of the years of
four digits. -/
structure IsCurrent (now : Instant) : Prop where
  onCalendar : now.OnCalendar
  after : 0 ≤ now.seconds
  before : now.seconds ≤ greatestExpiry - greatestLifetime

theorem isLifetime_of_lifetimeFor (h : Acceptable settings)
    (hn : lifetimeFor settings kind = some n) :
    IsLifetime n := by
  cases kind with
  | user =>
    cases hn
    exact h.userLifetime
  | recovery =>
    cases hn
    exact h.recoveryLifetime
  | api => exact h.apiLifetime n hn

theorem IsCurrent.expiry_range {now : Instant} (h : IsCurrent now) (hn : IsLifetime n) :
    1 ≤ now.seconds + n ∧ now.seconds + n ≤ greatestExpiry := by
  have hafter := h.after
  have hbefore := h.before
  obtain ⟨hpositive, hlong⟩ := hn
  omega

/-- A lifetime that settings may set ends on the calendar: a hundred years are within the span that
an expiry may be asked for. -/
theorem IsCurrent.exists_endOf? {r : KeyRequest} (h : IsCurrent r.issuedAt) (hn : IsLifetime n) :
    ∃ e, r.endOf? (Lifetime.ofSeconds n) = some e ∧ e.OnCalendar ∧
      e.seconds = r.issuedAt.seconds + n := by
  obtain ⟨hpositive, hfour⟩ := h.expiry_range hn
  have hcalendar : Instant.inCalendar (r.issuedAt.seconds + n) = true := by
    rw [Instant.inCalendar_iff, Instant.leastSeconds, Instant.greatestSeconds]
    rw [greatestExpiry] at hfour
    omega
  have hspan : Lifetime.ofSeconds n ≤ Lifetime.greatest := by
    have hlong := hn.2
    rw [greatestLifetime] at hlong
    show n * 1000000000 ≤ 9223372036854775807 * 1000000
    omega
  obtain ⟨e, hadd⟩ := h.onCalendar.exists_add? hcalendar
  refine ⟨e, KeyRequest.endOf?_eq_some_iff.2 ⟨hspan, hadd⟩, h.onCalendar.add? hadd, ?_⟩
  exact h.onCalendar.seconds_add? hadd

def requestUntil (s : Start) (subject : String) (kind : KeyType) (email issuer id : Option String)
    (expiresAt : Option Instant) : KeyRequest :=
  ⟨subject, issuer.getD subject, email, keyIdFor s id kind, some kind, s.now, expiresAt⟩

/-- The lifetime that the settings have for a type of keys is the time from the clock to the
expiry. -/
theorem keyRequest_eq_requestUntil (hnow : IsCurrent s.now) (h : Acceptable settings)
    (subject : String) (kind : KeyType) (email issuer id : Option String) : ∃ expiresAt,
    keyRequest s settings subject kind email issuer id none =
      requestUntil s subject kind email issuer id expiresAt ∧
    (expiresAt.map fun e => ⟨e.seconds, 0⟩) = (lifetimeFor settings kind).map s.now.secondAfter ∧
    ∀ e, expiresAt = some e → e.OnCalendar := by
  cases hlifetime : lifetimeFor settings kind with
  | none =>
    refine ⟨none, ?_, rfl, nofun⟩
    rw [keyRequest, Option.none_or, hlifetime]
    rfl
  | some n =>
    obtain ⟨e, hend, he, hseconds⟩ := IsCurrent.exists_endOf?
      (r := requestUntil s subject kind email issuer id none) hnow
        (isLifetime_of_lifetimeFor h hlifetime)
    refine ⟨some e, ?_, ?_, ?_⟩
    · rw [keyRequest, Option.none_or, hlifetime]
      exact KeyRequest.expiresIn_of_end hend
    · rw [Option.map_some, hseconds]
      rfl
    · rintro _ ⟨⟩
      exact he

def configuredKey (s : Start) (settings : Settings) (subject : String) (kind : KeyType)
    (email issuer id : Option String) : Key :=
  ⟨keyIdFor s id kind, issuer.getD subject, subject, email, kind, ⟨s.now.seconds, 0⟩,
    (lifetimeFor settings kind).map s.now.secondAfter⟩

theorem inSeconds_ofRequest_requestUntil {expiresAt : Option Instant}
    (hseconds : (expiresAt.map fun e => ⟨e.seconds, 0⟩) =
      (lifetimeFor settings kind).map s.now.secondAfter) :
    (Key.ofRequest (requestUntil s subject kind email issuer id expiresAt) kind).inSeconds =
      configuredKey s settings subject kind email issuer id := by
  rw [configuredKey, ← hseconds]
  simp only [Key.inSeconds, Key.ofRequest, requestUntil, Option.map_map]
  rfl

/-- Under accepted settings with a secret a request of the command is signed, and its token reads as
the configured key. -/
theorem issue_configured {secret : Secret} (h : Acceptable settings)
    (hsecret : settings.tokens.secret = some secret) (hnow : IsCurrent s.now)
    (hsubject : subject ≠ "") (kind : KeyType) (email issuer id : Option String) :
    ∃ k token,
      (Tokenizer.mk secret).issue (keyRequest s settings subject kind email issuer id none) =
        .ok (k, token) ∧
      Tokenizer.read secret.octets token.toList =
        .ok (configuredKey s settings subject kind email issuer id) := by
  obtain ⟨expiresAt, hrequest, hseconds, hcalendar⟩ :=
    keyRequest_eq_requestUntil hnow h subject kind email issuer id
  have hrange : ∀ e, expiresAt = some e → 1 ≤ e.seconds ∧ e.seconds ≤ greatestExpiry := by
    rintro e rfl
    obtain ⟨n, hn, he⟩ := Option.map_eq_some_iff.1 hseconds.symm
    rw [← congrArg Instant.seconds he]
    exact hnow.expiry_range (isLifetime_of_lifetimeFor h hn)
  obtain ⟨k, token, hissue⟩ : ∃ k token,
      (Tokenizer.mk secret).issue (requestUntil s subject kind email issuer id expiresAt) =
        .ok (k, token) :=
    ⟨_, _, Tokenizer.issue_eq_ok_iff.2
      ⟨h.secret secret hsecret, hsubject, hrange, kind, rfl, rfl, rfl⟩⟩
  have hread :=
    Tokenizer.read_issued hnow.onCalendar.seconds (fun e he => (hcalendar e he).seconds) hissue
  obtain ⟨-, -, -, _, ⟨⟩, rfl, -⟩ := Tokenizer.issue_eq_ok_iff.1 hissue
  rw [inSeconds_ofRequest_requestUntil hseconds] at hread
  rw [hrequest]
  exact ⟨_, token, hissue, hread⟩

theorem runCommand_issue {config : Option String} {t : Tokenizer} {k : Key} {token : String}
    (hsettings : CommandLine.settings s config = .ok settings)
    (htokenizer : tokenizer settings = .ok t)
    (hissue : t.issue (keyRequest s settings subject kind email issuer id none) = .ok (k, token)) :
    runCommand s config (.issue subject kind email issuer id none) = .ok (0, token ++ "\n") := by
  rw [runCommand, hsettings]
  simp only [bind, Except.bind, htokenizer, hissue, Except.mapError]
  rfl

/-- Settings that were accepted and have a secret issue every key at any time up to the last hundred
years of the calendar of tokens, whatever the sources were. The token is read as its key before the
configured lifetime has passed since the second of the clock, and has expired from then on; without
a lifetime it is read always. -/
theorem configured_key_issued (e : Environment) (sources : List Source) (settings : Settings)
    (secret : Secret) (s : Start) (subject : String) (kind : KeyType)
    (email issuer id : Option String) (hsettings : Settings.ofSources e sources = .ok settings)
    (hsecret : settings.tokens.secret = some secret) (hsubject : subject ≠ "")
    (hnow : IsCurrent s.now) :
    ∃ t k token, tokenizer settings = .ok t ∧
      t.issue (keyRequest s settings subject kind email issuer id none) = .ok (k, token) ∧
      (∀ config, CommandLine.settings s config = .ok settings →
        runCommand s config (.issue subject kind email issuer id none) = .ok (0, token ++ "\n")) ∧
      (∀ now, (∀ n, lifetimeFor settings kind = some n → now.IsBefore (s.now.secondAfter n)) →
        t.parse token now = .ok (configuredKey s settings subject kind email issuer id)) ∧
      ∀ n now, lifetimeFor settings kind = some n → ¬now.IsBefore (s.now.secondAfter n) →
        t.parse token now = .error .expired := by
  have hacceptable := Settings.acceptable_of_ofSources hsettings
  have htokenizer : tokenizer settings = .ok ⟨secret⟩ := by rw [tokenizer, hsecret]
  obtain ⟨k, token, hissue, hread⟩ :=
    issue_configured hacceptable hsecret hnow hsubject kind email issuer id
  have hparse := Tokenizer.parse_of_read (t := ⟨secret⟩) (hacceptable.secret secret hsecret) hread
  have hlive :
      ∀ now, (configuredKey s settings subject kind email issuer id).isExpiredAt now = false ↔
      ∀ n, lifetimeFor settings kind = some n → now.IsBefore (s.now.secondAfter n) := by
    intro now
    rw [Key.isExpiredAt_eq_false_iff, configuredKey]
    simp only [Option.map_eq_some_iff, forall_exists_index, and_imp, forall_apply_eq_imp_iff₂]
  refine ⟨_, k, token, htokenizer, hissue, ?_, ?_, ?_⟩
  · exact fun config hconfig => runCommand_issue hconfig htokenizer hissue
  · intro now hbefore
    rw [hparse, (hlive now).2 hbefore]
    rfl
  · intro n now hn hafter
    have hover :
        (configuredKey s settings subject kind email issuer id).isExpiredAt now = true := by
      rw [← Bool.not_eq_false, hlive]
      exact fun hbefore => hafter (hbefore n hn)
    rw [hparse, if_pos hover]

def insertedStart : Start :=
  ⟨⟨[("WARDEN_AUTH_SECRET", Text.octetsOf "key"),
    ("WARDEN_AUTH_USER_KEY_TTL_SECS", Text.octetsOf "60")], [], [], []⟩,
    ⟨1483228799, 1500000000⟩, Fresh.uuid⟩

theorem configured_key_issued_ann :
    ∃ settings, CommandLine.settings insertedStart none = .ok settings ∧
    settings.tokens.secret = some ⟨"key"⟩ ∧ IsCurrent insertedStart.now ∧ ∃ token,
      runCommand insertedStart none (.issue "ann" .user none none none none) =
        .ok (0, token ++ "\n") ∧
      (Tokenizer.mk ⟨"key"⟩).parse token ⟨1483228858, 999999999⟩ =
        .ok ⟨none, "ann", "ann", none, .user, ⟨1483228799, 0⟩, some ⟨1483228859, 0⟩⟩ ∧
      (Tokenizer.mk ⟨"key"⟩).parse token ⟨1483228859, 0⟩ = .error .expired := by
  have hnow : IsCurrent insertedStart.now := ⟨⟨by decide, by decide⟩, by decide, by decide⟩
  have hloads :
      (Settings.byPrecedence
      [.defaults, .file Settings.machineFile, .environment Settings.stem]).map
      (·.load insertedStart.environment) =
      [.empty, .empty,
        ⟨some ⟨some ⟨"key"⟩, some 60, none, none⟩, some ⟨none⟩, some ⟨none, none⟩⟩].map .ok := by
    decide +kernel
  have hload : Settings.load insertedStart.environment none =
      .ok ⟨⟨some ⟨"key"⟩, 60, 300, none⟩, 5000, ⟨"info", false⟩⟩ :=
        Settings.ofSources_of_loads hloads
  have hsettings : CommandLine.settings insertedStart none =
      .ok ⟨⟨some ⟨"key"⟩, 60, 300, none⟩, 5000, ⟨"info", false⟩⟩ := by
        rw [CommandLine.settings, hload]; rfl
  obtain ⟨t, k, token, htokenizer, -, hcommand, hbefore, hafter⟩ :=
    configured_key_issued _ _ _ ⟨"key"⟩ insertedStart "ann" .user none none none hload rfl
      (by decide) hnow
  cases htokenizer
  refine ⟨_, hsettings, rfl, hnow, token, hcommand none hsettings, hbefore _ ?_,
    hafter 60 _ rfl (by decide)⟩
  rintro n ⟨⟩
  exact .inl (by decide)

end CommandLine
end AccessControl
