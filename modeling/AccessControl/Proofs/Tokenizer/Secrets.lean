import AccessControl.Proofs.Tokenizer.Expiry

/-! # Tokens under another secret

A tokenizer sees no more of a secret than the keyed digest does. A token from elsewhere is refused
where the digests of its text differ, and where they agree it is read as at home. Secrets that fill
the block of the hash alike always agree, so a short secret and the same with zeros behind it are
one.
-/
namespace AccessControl

namespace Hmac
open Text (Octets)

variable {a b : Octets}

def shortened (key : Octets) : Octets :=
  if key.length ≤ Sha256.blockSize then key else Sha256.hash key

/-- One of two keys is the other with zeros behind it. -/
def AlikeButZeros (a b : Octets) : Prop :=
  ∃ n, a = b ++ List.replicate n 0 ∨ b = a ++ List.replicate n 0

theorem length_shortened_le (key : Octets) : (shortened key).length ≤ Sha256.blockSize := by
  rw [shortened]
  split
  · assumption
  · rw [Sha256.length_hash]
    decide

/-- Filled up with zeros to one length, keys are the same just when they differ in zeros at the
end. -/
theorem filled_eq_iff {size : Nat} (ha : a.length ≤ size) (hb : b.length ≤ size) :
    a ++ List.replicate (size - a.length) 0 = b ++ List.replicate (size - b.length) 0 ↔
      AlikeButZeros a b := by
  constructor
  · intro h
    rcases List.append_eq_append_iff.1 h with ⟨more, rfl, hmore⟩ | ⟨more, rfl, hmore⟩
    · have hzeros := (List.replicate_eq_append_iff.1 hmore).2.1
      exact ⟨more.length, .inr (by rw [← hzeros])⟩
    · have hzeros := (List.replicate_eq_append_iff.1 hmore).2.1
      exact ⟨more.length, .inl (by rw [← hzeros])⟩
  · rintro ⟨n, rfl | rfl⟩
    · rw [List.length_append, List.length_replicate] at ha ⊢
      rw [List.append_assoc, List.replicate_append_replicate]
      congr 2
      omega
    · rw [List.length_append, List.length_replicate] at hb ⊢
      rw [List.append_assoc, List.replicate_append_replicate]
      congr 2
      omega

theorem keyBlock_eq_iff : keyBlock a = keyBlock b ↔ AlikeButZeros (shortened a) (shortened b) :=
  filled_eq_iff (length_shortened_le a) (length_shortened_le b)

end Hmac

namespace Tokenizer
open Token (Claims)
open Text (Octets)

variable {a b : Secret} {r : KeyRequest} {k : Key} {token : String} {now : Instant}

def signedText (k : Key) : Octets := octetsOfChars (body (Claims.ofKey k))

theorem signature_eq_iff {key key' : Octets} {text : List Char} :
    signature key text = signature key' text ↔
    Hmac.digest key (octetsOfChars text) = Hmac.digest key' (octetsOfChars text) := by
  constructor
  · intro h
    have hdecoded := congrArg Base64Url.decode h
    rw [signature, signature, Base64Url.decode_encode, Base64Url.decode_encode] at hdecoded
    exact Option.some.inj hdecoded
  · intro h
    rw [signature, signature, h]

theorem read_joined {key : Octets} {h c x : List Char} (hc : '.' ∉ c) (hx : '.' ∉ x) :
    read key (joined h c x) =
    checkHeader h >>= fun _ => checkSignature key h c x >>= fun _ =>
      readClaims c >>= Claims.toKey := by
  rw [read, split_eq_some_iff.2 ⟨rfl, hc, hx⟩]
  rfl

/-- Behind the header, which every token has, the signature is the only thing to depend on the
secret. -/
theorem read_assemble_elsewhere (key key' : Octets) (claims : Claims) :
    read key' (assemble key claims) =
      if Hmac.digest key' (octetsOfChars (body claims)) =
        Hmac.digest key (octetsOfChars (body claims)) then
        readClaims (part claims.toValue) >>= Claims.toKey
      else .error (.malformedToken "InvalidSignature") := by
  have hheader : checkHeader (part Token.header) = .ok () :=
    checkHeader_eq_ok_iff.2 ⟨_, holds_part plain_header, algorithmOf_header⟩
  have hclaims : '.' ∉ part claims.toValue := Base64Url.dot_not_mem_encode _
  rw [assemble_eq, read_joined hclaims (dot_not_mem_signature _ _), hheader, checkSignature]
  change (if signature key' (body claims) = signature key (body claims) then _
    else _ : Result Unit) >>= _ = _
  simp only [signature_eq_iff]
  split <;> rfl

theorem parse_elsewhere_of_ne (hb : b.isBlank = false)
    (hissue : (Tokenizer.mk a).issue r = .ok (k, token))
    (hne : Hmac.digest b.octets (signedText k) ≠ Hmac.digest a.octets (signedText k)) :
    (Tokenizer.mk b).parse token now = .error (.malformedToken "InvalidSignature") := by
  obtain ⟨-, -, -, ty, -, -, rfl⟩ := issue_eq_ok_iff.1 hissue
  rw [parse_of_not_blank (t := ⟨b⟩) hb, String.toList_ofList, read_assemble_elsewhere]
  change (if Hmac.digest b.octets (signedText k) = Hmac.digest a.octets (signedText k) then _
    else _ : Result Key) >>= _
    = _
  rw [if_neg hne]
  rfl

theorem parse_elsewhere_of_eq (hb : b.isBlank = false)
    (hissue : (Tokenizer.mk a).issue r = .ok (k, token))
    (heq : Hmac.digest b.octets (signedText k) = Hmac.digest a.octets (signedText k)) :
    (Tokenizer.mk b).parse token now = (Tokenizer.mk a).parse token now := by
  obtain ⟨ha, -, -, ty, -, -, rfl⟩ := issue_eq_ok_iff.1 hissue
  have hread : read b.octets (assemble a.octets (Claims.ofKey k)) =
      read a.octets (assemble a.octets (Claims.ofKey k)) := by
    rw [read_assemble_elsewhere, read_assemble_elsewhere, if_pos rfl]
    exact if_pos heq
  rw [parse_of_not_blank (t := ⟨b⟩) hb, parse_of_not_blank (t := ⟨a⟩) ha,
    String.toList_ofList, hread]

theorem not_refuses_own (hissued : r.issuedAt.OnCalendar)
    (hexpires : ∀ e, r.expiresAt = some e → e.OnCalendar)
    (hissue : (Tokenizer.mk a).issue r = .ok (k, token)) : ¬(Tokenizer.mk a).Refuses token now := by
  rintro ⟨reason, hparse⟩
  have hread := read_issued hissued.seconds (fun e he => (hexpires e he).seconds) hissue
  rw [parse_of_read (issue_eq_ok_iff.1 hissue).1 hread] at hparse
  split at hparse <;> cases hparse

/-- Under another secret a token is refused for its signature where the digests of its text differ,
and treated as under its own where they agree, at every moment; they agree for all texts when the
secrets are alike but for zeros. -/
theorem other_secret_refuses_iff (a b : Secret) (r : KeyRequest) (k : Key) (token : String)
    (hb : b.isBlank = false) (hissue : (Tokenizer.mk a).issue r = .ok (k, token)) :
    (Hmac.digest b.octets (signedText k) ≠ Hmac.digest a.octets (signedText k) → ∀ now,
      (Tokenizer.mk b).parse token now = .error (.malformedToken "InvalidSignature")) ∧
    (Hmac.digest b.octets (signedText k) = Hmac.digest a.octets (signedText k) → ∀ now,
      (Tokenizer.mk b).parse token now = (Tokenizer.mk a).parse token now) ∧
    (r.issuedAt.OnCalendar → (∀ e, r.expiresAt = some e → e.OnCalendar) → ∀ now,
      (Tokenizer.mk b).Refuses token now ↔
        Hmac.digest b.octets (signedText k) ≠ Hmac.digest a.octets (signedText k)) ∧
    (Hmac.AlikeButZeros (Hmac.shortened b.octets) (Hmac.shortened a.octets) → ∀ text,
      Hmac.digest b.octets text = Hmac.digest a.octets text) := by
  refine ⟨?_, ?_, ?_, ?_⟩
  · exact fun hne now => parse_elsewhere_of_ne hb hissue hne
  · exact fun heq now => parse_elsewhere_of_eq hb hissue heq
  · intro hissued hexpires now
    constructor
    · rintro ⟨reason, hrefused⟩ heq
      rw [parse_elsewhere_of_eq hb hissue heq] at hrefused
      exact not_refuses_own hissued hexpires hissue ⟨reason, hrefused⟩
    · exact fun hne => ⟨_, parse_elsewhere_of_ne hb hissue hne⟩
  · exact fun halike text => Hmac.digest_eq_of_keyBlock_eq (Hmac.keyBlock_eq_iff.2 halike) text

def lastingRequest : KeyRequest := ⟨"ann", "ann", none, none, some .user, ⟨1767225600, 0⟩, none⟩

theorem issue_lastingRequest :
    ∃ token, (Tokenizer.mk ⟨"key"⟩).issue lastingRequest =
      .ok (Key.ofRequest lastingRequest .user, token) :=
  ⟨_, issue_eq_ok_iff.2 ⟨by decide, by decide, nofun, .user, rfl, rfl, rfl⟩⟩

theorem other_secret_refuses_ann :
    ∃ k token, (Tokenizer.mk ⟨"key"⟩).issue lastingRequest = .ok (k, token) ∧
    (∀ now, (Tokenizer.mk ⟨"Key"⟩).Refuses token now) ∧
    ∀ now, (Tokenizer.mk ⟨"key\x00\x00"⟩).parse token now =
      (Tokenizer.mk ⟨"key"⟩).parse token now := by
  obtain ⟨token, hissue⟩ := issue_lastingRequest
  have hdiffer :
      Hmac.digest (Secret.mk "Key").octets (signedText (Key.ofRequest lastingRequest .user)) ≠
        Hmac.digest (Secret.mk "key").octets (signedText (Key.ofRequest lastingRequest .user)) := by
    decide +kernel
  have halike : Hmac.AlikeButZeros (Hmac.shortened (Secret.mk "key\x00\x00").octets)
      (Hmac.shortened (Secret.mk "key").octets) := ⟨2, .inl (by decide)⟩
  obtain ⟨hrefused, -, -, -⟩ := other_secret_refuses_iff _ ⟨"Key"⟩ _ _ _ (by decide) hissue
  obtain ⟨-, haccepted, -, hzeros⟩ :=
    other_secret_refuses_iff _ ⟨"key\x00\x00"⟩ _ _ _ (by decide) hissue
  exact ⟨_, _, hissue, fun now => ⟨_, hrefused hdiffer now⟩, haccepted (hzeros halike _)⟩

/-- Two secrets that are not one, of which the other reads what was signed under the first. -/
theorem secret_with_zero_behind_accepts :
    Secret.mk "key" ≠ ⟨"key\x00"⟩ ∧ (Secret.mk "key").isBlank = false ∧
    (Secret.mk "key\x00").isBlank = false ∧
      ∃ k token, (Tokenizer.mk ⟨"key"⟩).issue lastingRequest = .ok (k, token) ∧
      ∀ now, (Tokenizer.mk ⟨"key\x00"⟩).parse token now = .ok k ∧
        ¬(Tokenizer.mk ⟨"key\x00"⟩).Refuses token now := by
  obtain ⟨token, hissue⟩ := issue_lastingRequest
  have hoctets : (Secret.mk "key\x00").octets = (Secret.mk "key").octets ++ [0] := by decide
  have hblock :
      Hmac.keyBlock (Secret.mk "key\x00").octets = Hmac.keyBlock (Secret.mk "key").octets := by
    rw [hoctets, Hmac.keyBlock_append_zero (by decide)]
  have hown :
      ∀ now, (Tokenizer.mk ⟨"key"⟩).parse token now = .ok (Key.ofRequest lastingRequest .user) := by
    have hnever : (Key.ofRequest lastingRequest .user).expiresAt = none := rfl
    intro now
    rw [parse_issued (r := lastingRequest) ⟨by decide, by decide⟩ nofun hissue, hnever]
    exact nofun
  have hparse : ∀ now, (Tokenizer.mk ⟨"key\x00"⟩).parse token now =
      .ok (Key.ofRequest lastingRequest .user) := by
    intro now
    rw [parse_elsewhere_of_eq (by decide) hissue (Hmac.digest_eq_of_keyBlock_eq hblock _), hown]
  refine ⟨by decide, by decide, by decide, _, _, hissue, fun now => ⟨hparse now, ?_⟩⟩
  rintro ⟨reason, hrefused⟩
  cases (hparse now).symm.trans hrefused

end Tokenizer
end AccessControl
