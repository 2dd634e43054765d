import AccessControl.Proofs.Encoding.Base64Url
import AccessControl.Proofs.Failures
import AccessControl.Proofs.Token.Bearing
import AccessControl.Proofs.Tokenizer.Parts

/-! # What a token that is read looks like

A token is read exactly when it is three parts of which the first names the signing algorithm, the
third is the signature of the other two, and the second holds the claims of a key. Otherwise it is
malformed, whatever is wrong with it; only the expiry of a key that was read depends on the moment.
-/
namespace AccessControl

def Result.BlamesToken {α : Type} (r : Result α) : Prop :=
  r.FailsOnlyWith fun e => ∃ reason, e = .malformedToken reason

theorem Key.isExpiredAt_eq_false_iff {k : Key} {now : Instant} :
    k.isExpiredAt now = false ↔ ∀ e, k.expiresAt = some e → now.IsBefore e := by
  rw [Key.isExpiredAt]
  cases k.expiresAt with
  | none => exact ⟨fun _ => nofun, fun _ => rfl⟩
  | some e => simp only [Instant.le_eq_false_iff, Option.some.injEq, forall_eq']

namespace Tokenizer
open Token (Claims)
open Text (Octets)
open Result (BlamesToken)

variable {t : Tokenizer} {key : Octets} {s h c x : List Char} {k : Key} {claims : Claims}
  {token : String} {now : Instant}

theorem orMalformed_eq_ok_iff {α : Type} {reason : String} {o : Option α} {a : α} :
    orMalformed reason o = .ok a ↔ o = some a := by
  cases o with
  | none => exact ⟨nofun, nofun⟩
  | some b => simp only [orMalformed, Except.ok.injEq, Option.some.injEq]

def Holds (part : List Char) (v : Value) : Prop :=
  ∃ octets, Base64Url.decode part = some octets ∧ Json.readOctets octets = some v

theorem checkHeader_eq_ok_iff :
    checkHeader h = .ok () ↔ ∃ v, Holds h v ∧
      Token.algorithmOf v = some Token.signingAlgorithm := by
  simp only [checkHeader, Result.bind_eq_ok_iff, orMalformed_eq_ok_iff, Option.bind_eq_some_iff]
  constructor
  · rintro ⟨octets, hoctets, algorithm, ⟨v, hv, halgorithm⟩, hcheck⟩
    split at hcheck
    · rename_i heq
      subst heq
      exact ⟨v, ⟨octets, hoctets, hv⟩, halgorithm⟩
    · cases hcheck
  · rintro ⟨v, ⟨octets, hoctets, hv⟩, halgorithm⟩
    exact ⟨octets, hoctets, _, ⟨v, hv, halgorithm⟩, if_pos rfl⟩

theorem readClaims_eq_ok_iff :
    readClaims c = .ok claims ↔ ∃ v, Holds c v ∧ Claims.ofValue v = some claims := by
  simp only [readClaims, Result.bind_eq_ok_iff, orMalformed_eq_ok_iff, Option.bind_eq_some_iff]
  constructor
  · rintro ⟨octets, hoctets, v, hv, hclaims⟩
    exact ⟨v, ⟨octets, hoctets, hv⟩, hclaims⟩
  · rintro ⟨v, ⟨octets, hoctets, hv⟩, hclaims⟩
    exact ⟨octets, hoctets, v, hv, hclaims⟩

theorem checkSignature_eq_ok_iff :
    checkSignature key h c x = .ok () ↔ signature key (h ++ '.' :: c) = x := by
  rw [checkSignature]
  split
  · rename_i heq
    exact ⟨fun _ => heq, fun _ => rfl⟩
  · rename_i hne
    exact ⟨nofun, fun heq => absurd heq hne⟩

theorem Holds.unique {part : List Char} {v v' : Value} (h : Holds part v) (h' : Holds part v') :
    v = v' := by
  obtain ⟨octets, hoctets, hv⟩ := h
  obtain ⟨octets', hoctets', hv'⟩ := h'
  obtain rfl := Option.some.inj (hoctets.symm.trans hoctets')
  exact Option.some.inj (hv.symm.trans hv')

theorem Holds.dot_not_mem {part : List Char} {v : Value} (hpart : Holds part v) : '.' ∉ part := by
  obtain ⟨octets, hoctets, -⟩ := hpart
  exact Base64Url.dot_not_mem_of_decode hoctets

theorem dot_not_mem_signature (key : Octets) (text : List Char) : '.' ∉ signature key text :=
  Base64Url.dot_not_mem_encode _

/-- A token is read exactly when its third part is the signature of the first two, the first names
the algorithm, and the second carries the key. -/
theorem read_eq_ok_iff :
    read key s = .ok k ↔ ∃ h c, s = joined h c (signature key (h ++ '.' :: c)) ∧
      (∃ v, Holds h v ∧ Token.algorithmOf v = some Token.signingAlgorithm) ∧
      ∃ v claims, Holds c v ∧ Claims.ofValue v = some claims ∧ claims.toKey = .ok k := by
  simp only [read, Result.bind_eq_ok_iff, orMalformed_eq_ok_iff, Prod.exists, split_eq_some_iff]
  constructor
  · rintro ⟨h, c, x, ⟨rfl, -, -⟩, ⟨⟩, hheader, ⟨⟩, hsignature, claims, hclaims, hkey⟩
    obtain rfl := checkSignature_eq_ok_iff.1 hsignature
    obtain ⟨v, hv, hread⟩ := readClaims_eq_ok_iff.1 hclaims
    exact ⟨h, c, rfl, checkHeader_eq_ok_iff.1 hheader, v, claims, hv, hread, hkey⟩
  · rintro ⟨h, c, rfl, hheader, v, claims, hv, hread, hkey⟩
    exact ⟨h, c, _, ⟨rfl, hv.dot_not_mem, dot_not_mem_signature _ _⟩, (),
      checkHeader_eq_ok_iff.2 hheader, (), checkSignature_eq_ok_iff.2 rfl, claims,
      readClaims_eq_ok_iff.2 ⟨v, hv, hread⟩, hkey⟩

theorem blamesToken_orMalformed {α : Type} (reason : String) (o : Option α) :
    BlamesToken (orMalformed reason o) := by
  cases o with
  | none => exact .error ⟨reason, rfl⟩
  | some a => exact .ok a

theorem blamesToken_ofWire (n : Nat) : BlamesToken (KeyType.ofWire n) := by
  rw [KeyType.ofWire]
  split
  · exact .ok _
  · exact .error ⟨_, rfl⟩

theorem blamesToken_stampInstant (n : Int) : BlamesToken (Claims.stampInstant n) := by
  rw [Claims.stampInstant]
  split
  · exact .ok _
  · exact .error ⟨_, rfl⟩

theorem blamesToken_expiry (n : Option Int) : BlamesToken (Claims.expiry n) := by
  cases n with
  | none => exact .ok _
  | some n =>
    rw [Claims.expiry]
    split
    · exact .ok _
    · exact .bind (blamesToken_stampInstant n) fun t => .ok (some t)

theorem blamesToken_toKey (claims : Claims) : BlamesToken claims.toKey := by
  rw [Claims.toKey]
  split
  · exact .error ⟨_, rfl⟩
  split
  · exact .error ⟨_, rfl⟩
  · refine .bind (blamesToken_ofWire _) fun _ => ?_
    split
    · exact .error ⟨_, rfl⟩
    · exact .bind (blamesToken_stampInstant _) fun _ => .bind (blamesToken_expiry _) fun _ => .ok _

theorem blamesToken_checkHeader (h : List Char) : BlamesToken (checkHeader h) := by
  refine .bind (blamesToken_orMalformed _ _) fun _ =>
    .bind (blamesToken_orMalformed _ _) fun _ => ?_
  split
  · exact .ok ()
  · exact .error ⟨_, rfl⟩

theorem blamesToken_checkSignature (key : Octets) (h c x : List Char) :
    BlamesToken (checkSignature key h c x) := by
  rw [checkSignature]
  split
  · exact .ok ()
  · exact .error ⟨_, rfl⟩

theorem blamesToken_readClaims (c : List Char) : BlamesToken (readClaims c) :=
  .bind (blamesToken_orMalformed _ _) fun _ => blamesToken_orMalformed _ _

theorem blamesToken_read (key : Octets) (s : List Char) : BlamesToken (read key s) :=
  .bind (blamesToken_orMalformed _ _) fun _ => .bind (blamesToken_checkHeader _) fun _ =>
    .bind (blamesToken_checkSignature _ _ _ _) fun _ =>
      .bind (blamesToken_readClaims _) blamesToken_toKey

theorem signingKey_of_not_blank (hsecret : t.secret.isBlank = false) :
    t.signingKey = .ok t.secret.octets := by
  rw [signingKey, hsecret]
  rfl

theorem signingKey_of_blank (hsecret : t.secret.isBlank = true) :
    t.signingKey = .error (.signing "signing secret is empty") := by
  rw [signingKey, if_pos hsecret]

theorem parse_of_not_blank (hsecret : t.secret.isBlank = false) :
    t.parse token now = read t.secret.octets token.toList >>= fun k =>
      if k.isExpiredAt now then .error .expired else .ok k := by
  rw [parse, signingKey_of_not_blank hsecret]
  rfl

theorem parse_of_read (hsecret : t.secret.isBlank = false)
    (hread : read t.secret.octets token.toList = .ok k) (now : Instant) :
    t.parse token now = if k.isExpiredAt now then .error .expired else .ok k := by
  rw [parse_of_not_blank hsecret, hread]
  rfl

theorem parse_of_blank (hsecret : t.secret.isBlank = true) :
    t.parse token now = .error (.signing "signing secret is empty") := by
  rw [parse, signingKey_of_blank hsecret]
  rfl

theorem parse_eq_ok_iff : t.parse token now = .ok k ↔
    t.secret.isBlank = false ∧ read t.secret.octets token.toList = .ok k ∧
      k.isExpiredAt now = false := by
  cases hsecret : t.secret.isBlank with
  | true => simp only [parse_of_blank hsecret, reduceCtorEq, Bool.true_eq_false, false_and]
  | false =>
    rw [parse_of_not_blank hsecret, Result.bind_eq_ok_iff]
    simp only [Result.guard_eq_ok_iff, Except.ok.injEq, true_and, Bool.not_eq_true]
    constructor
    · rintro ⟨_, hread, hlive, rfl⟩
      exact ⟨hread, hlive⟩
    · rintro ⟨hread, hlive⟩
      exact ⟨k, hread, hlive, rfl⟩

theorem parse_malformed (hsecret : t.secret.isBlank = false)
    (hread : ∀ k, read t.secret.octets token.toList ≠ .ok k) :
    ∃ reason, t.parse token now = .error (.malformedToken reason) := by
  cases hresult : read t.secret.octets token.toList with
  | ok k => exact absurd hresult (hread k)
  | error e =>
    obtain ⟨reason, rfl⟩ := blamesToken_read _ _ e hresult
    refine ⟨reason, ?_⟩
    rw [parse_of_not_blank hsecret, hresult]
    rfl

/-- With a secret to read it, a token fails only as expired or as malformed. -/
theorem parse_error_cases {e : AuthError} (hsecret : t.secret.isBlank = false)
    (h : t.parse token now = .error e) :
    e = .expired ∨ ∃ reason, e = .malformedToken reason := by
  rw [parse_of_not_blank hsecret] at h
  cases hread : read t.secret.octets token.toList with
  | error e' =>
    rw [hread] at h
    cases h
    exact .inr (blamesToken_read _ _ e hread)
  | ok k =>
    rw [hread] at h
    change (if k.isExpiredAt now then .error .expired else .ok k : Result Key) = .error e at h
    split at h
    · cases h
      exact .inl rfl
    · cases h

end Tokenizer
end AccessControl
