import AccessControl.Proofs.Tokenizer.Reading

/-! # Tokens read back

What a request must have for a token to be issued, the form of the token, and that it is read as the
key that was issued with it for as long as that key lives.
-/
namespace AccessControl

namespace Sha256

theorem length_bigEndian (width n : Nat) : (bigEndian width n).length = width := by
  rw [bigEndian, List.length_map, List.length_range]

theorem length_hash (message : Text.Octets) : (hash message).length = 32 := by
  simp only [hash, State.octets, List.length_flatMap, length_bigEndian]
  rfl

end Sha256

namespace Tokenizer
open Token (Claims)
open Text (Octets)

variable {t : Tokenizer} {r : KeyRequest} {key : Octets} {k : Key} {claims : Claims}
  {token : String}

theorem octetsOfChars_ne_nil {cs : List Char} (h : cs ≠ []) : octetsOfChars cs ≠ [] := by
  cases cs with
  | nil => exact absurd rfl h
  | cons c cs =>
    intro hnil
    rw [octetsOfChars, List.flatMap_cons, List.append_eq_nil_iff] at hnil
    exact Text.encodeChar_ne_nil c hnil.1

theorem holds_part {v : Value} (h : v.Plain) : Holds (part v) v :=
  ⟨_, Base64Url.decode_encode _, Json.readOctets_write h⟩

theorem part_ne_nil {v : Value} (h : v.Plain) : part v ≠ [] := by
  obtain ⟨c, cs, hcs, -⟩ := Json.write_eq_cons h
  rw [part, Ne, Base64Url.encode_eq_nil_iff]
  apply octetsOfChars_ne_nil
  rw [hcs]
  exact List.cons_ne_nil c cs

theorem signature_ne_nil (key : Octets) (text : List Char) : signature key text ≠ [] := by
  rw [signature, Ne, Base64Url.encode_eq_nil_iff]
  intro hnil
  have hlength := Sha256.length_hash (((Hmac.keyBlock key).map (· ^^^ 0x5c)) ++
    Sha256.hash ((Hmac.keyBlock key).map (· ^^^ 0x36) ++ octetsOfChars text))
  rw [Hmac.digest, Hmac.digestWithBlock] at hnil
  rw [hnil] at hlength
  cases hlength

theorem plain_header : Token.header.Plain := by
  apply Value.Plain.object
  intro f hf
  simp only [List.mem_cons, List.not_mem_nil, or_false] at hf
  rcases hf with rfl | rfl <;> exact .string _

theorem algorithmOf_header : Token.algorithmOf Token.header = some Token.signingAlgorithm := by
  decide

theorem assemble_eq (key : Octets) (claims : Claims) : assemble key claims =
    joined (part Token.header) (part claims.toValue)
      (signature key (part Token.header ++ '.' :: part claims.toValue)) :=
  rfl

theorem read_assemble (h : k.Representable) : read key (assemble key (Claims.ofKey k)) = .ok k := by
  have hbounds := Claims.inBounds_ofKey h
  rw [read_eq_ok_iff]
  exact ⟨_, _, assemble_eq key _, ⟨_, holds_part plain_header, algorithmOf_header⟩, _, _,
    holds_part (Claims.plain_toValue hbounds), Claims.ofValue_toValue hbounds, Claims.toKey_ofKey h⟩

theorem checkExpiry_eq_ok_iff {e : Option Instant} :
    checkExpiry e = .ok () ↔ ∀ t, e = some t → 1 ≤ t.seconds ∧ t.seconds ≤ greatestExpiry := by
  cases e with
  | none => exact ⟨fun _ => nofun, fun _ => rfl⟩
  | some t =>
    simp only [checkExpiry, Result.guard_eq_ok_iff, Option.some.injEq, forall_eq', and_true]
    omega

/-- A key is issued exactly when there is a secret, a subject, a type, and no expiry outside the
years that a token may name. -/
theorem issue_eq_ok_iff : t.issue r = .ok (k, token) ↔ t.secret.isBlank = false ∧ r.subject ≠ "" ∧
    (∀ e, r.expiresAt = some e → 1 ≤ e.seconds ∧ e.seconds ≤ greatestExpiry) ∧
    ∃ ty, r.keyType = some ty ∧ k = Key.ofRequest r ty ∧
      token = String.ofList (assemble t.secret.octets (Claims.ofKey k)) := by
  cases hsecret : t.secret.isBlank with
  | true =>
    rw [issue, signingKey_of_blank hsecret]
    exact ⟨nofun, nofun⟩
  | false =>
    have hexpiry : ∀ ty, checkExpiry (Key.ofRequest r ty).expiresAt = .ok () ↔
        ∀ e, r.expiresAt = some e → 1 ≤ e.seconds ∧ e.seconds ≤ greatestExpiry := by
      intro ty
      rw [checkExpiry_eq_ok_iff, Key.ofRequest]
      cases r.expiresAt with
      | none => exact ⟨fun _ => nofun, fun _ => nofun⟩
      | some e => simp only [Option.map_some, Option.some.injEq, forall_eq', Instant.truncate]
    rw [issue, signingKey_of_not_blank hsecret, Result.bind_eq_ok_iff]
    cases htype : r.keyType with
    | none =>
      constructor
      · rintro ⟨_, -, h⟩
        cases h
      · rintro ⟨-, -, -, _, h, -⟩
        cases h
    | some ty =>
      simp only [Result.guard_eq_ok_iff, Result.check_eq_ok_iff, hexpiry]
      constructor
      · rintro ⟨_, hsigning, hsubject, hexpires, hout⟩
        cases hsigning
        cases hout
        exact ⟨trivial, fun h => hsubject (String.isEmpty_iff.2 h), hexpires, ty, rfl, rfl, rfl⟩
      · rintro ⟨-, hsubject, hexpires, _, hty, rfl, rfl⟩
        cases hty
        exact ⟨_, rfl, fun h => hsubject (String.isEmpty_iff.1 h), hexpires, rfl⟩

theorem ofRequest_eq {ty : KeyType} (hissued : r.issuedAt.IsRegular)
    (hexpires : ∀ e, r.expiresAt = some e → e.IsRegular) :
    Key.ofRequest r ty = ⟨r.id, r.issuerId, r.subject, r.email, ty, ⟨r.issuedAt.seconds, 0⟩,
      r.expiresAt.map fun e => ⟨e.seconds, 0⟩⟩ := by
  rw [Key.ofRequest, hissued.truncate_eq, Option.map_congr fun e he => (hexpires e he).truncate_eq]

theorem representable_of_issue (hissued : r.issuedAt.IsRegular)
    (hexpires : ∀ e, r.expiresAt = some e → e.IsRegular) (h : t.issue r = .ok (k, token)) :
    k.Representable := by
  obtain ⟨-, hsubject, hpositive, ty, -, rfl, -⟩ := issue_eq_ok_iff.1 h
  refine ⟨hsubject, hissued.isWhole_truncate, ?_⟩
  intro e he
  obtain ⟨e, hr, rfl⟩ := Option.map_eq_some_iff.1 he
  refine ⟨(hexpires e hr).isWhole_truncate, ?_⟩
  have hone : 1 ≤ e.truncate.seconds := (hpositive e hr).1
  omega

def IsPart (p : List Char) : Prop := p ≠ [] ∧ (Base64Url.decode p).isSome = true

theorem IsPart.of_encode {bs : Octets} (h : Base64Url.encode bs ≠ []) :
    IsPart (Base64Url.encode bs) := by
  refine ⟨h, ?_⟩
  rw [Base64Url.decode_encode]
  rfl

theorem IsPart.dot_not_mem {p : List Char} (h : IsPart p) : '.' ∉ p := by
  obtain ⟨bs, hbs⟩ := Option.isSome_iff_exists.1 h.2
  exact Base64Url.dot_not_mem_of_decode hbs

theorem parts_assemble (key : Octets) (h : claims.InBounds) :
    ∃ a b c, assemble key claims = joined a b c ∧ ∀ p ∈ [a, b, c], IsPart p := by
  refine ⟨_, _, _, assemble_eq key claims, ?_⟩
  simp only [List.forall_mem_cons, List.not_mem_nil, false_implies, implies_true, and_true]
  exact ⟨.of_encode (part_ne_nil plain_header), .of_encode (part_ne_nil (Claims.plain_toValue h)),
    .of_encode (signature_ne_nil _ _)⟩

theorem parse_issued_eq_ok_iff {k' : Key} (hissued : r.issuedAt.IsRegular)
    (hexpires : ∀ e, r.expiresAt = some e → e.IsRegular) (h : t.issue r = .ok (k, token))
    {now : Instant} :
    t.parse token now = .ok k' ↔ k' = k ∧ ∀ e, k.expiresAt = some e → now.IsBefore e := by
  have hk := representable_of_issue hissued hexpires h
  obtain ⟨hsecret, -, -, ty, -, -, rfl⟩ := issue_eq_ok_iff.1 h
  rw [parse_eq_ok_iff, String.toList_ofList, read_assemble hk, Key.isExpiredAt_eq_false_iff]
  constructor
  · rintro ⟨-, hread, hlive⟩
    cases hread
    exact ⟨rfl, hlive⟩
  · rintro ⟨rfl, hlive⟩
    exact ⟨hsecret, rfl, hlive⟩

theorem parse_issued (hissued : r.issuedAt.IsRegular)
    (hexpires : ∀ e, r.expiresAt = some e → e.IsRegular) (h : t.issue r = .ok (k, token))
    {now : Instant} :
    t.parse token now = .ok k ↔ ∀ e, k.expiresAt = some e → now.IsBefore e := by
  rw [parse_issued_eq_ok_iff hissued hexpires h]
  exact and_iff_right rfl

/-- A token is issued under exactly these conditions, and read as the key that was issued with it at
every moment before the expiry, whatever texts the key holds. -/
theorem issued_reads_back (t : Tokenizer) (r : KeyRequest) (hissued : r.issuedAt.IsRegular)
    (hexpires : ∀ e, r.expiresAt = some e → e.IsRegular) :
    ((∃ k token, t.issue r = .ok (k, token)) ↔
      t.secret.isBlank = false ∧ r.keyType ≠ none ∧ r.subject ≠ "" ∧
      ∀ e, r.expiresAt = some e → 1 ≤ e.seconds ∧ e.seconds ≤ 253402300799) ∧
    ∀ k token, t.issue r = .ok (k, token) →
      (∃ ty, r.keyType = some ty ∧
        k = ⟨r.id, r.issuerId, r.subject, r.email, ty, ⟨r.issuedAt.seconds, 0⟩,
        r.expiresAt.map fun e => ⟨e.seconds, 0⟩⟩) ∧
      (token.toList.count '.' = 2 ∧ ∃ a b c, token.toList = joined a b c ∧
        ∀ p ∈ [a, b, c], IsPart p) ∧
      ∀ now, t.parse token now = .ok k ↔ ∀ e, k.expiresAt = some e → now.IsBefore e := by
  constructor
  · constructor
    · rintro ⟨k, token, h⟩
      obtain ⟨hsecret, hsubject, hrange, ty, hty, -, -⟩ := issue_eq_ok_iff.1 h
      refine ⟨hsecret, ?_, hsubject, hrange⟩
      rw [hty]
      exact Option.some_ne_none ty
    · rintro ⟨hsecret, htype, hsubject, hrange⟩
      obtain ⟨ty, hty⟩ := Option.ne_none_iff_exists'.1 htype
      exact ⟨_, _, issue_eq_ok_iff.2 ⟨hsecret, hsubject, hrange, ty, hty, rfl, rfl⟩⟩
  · intro k token h
    have hk := representable_of_issue hissued hexpires h
    obtain ⟨-, -, -, ty, hty, hrequest, htoken⟩ := issue_eq_ok_iff.1 h
    refine ⟨⟨ty, hty, hrequest.trans (ofRequest_eq hissued hexpires)⟩, ?_, fun now =>
      parse_issued hissued hexpires h⟩
    obtain ⟨a, b, c, hparts, hall⟩ := parts_assemble t.secret.octets (Claims.inBounds_ofKey hk)
    have hlist : token.toList = joined a b c := by rw [htoken, String.toList_ofList, hparts]
    refine ⟨?_, a, b, c, hlist, hall⟩
    simp only [List.forall_mem_cons] at hall
    obtain ⟨ha, hb, hc, -⟩ := hall
    rw [hlist, count_dot_eq_two_iff]
    exact ⟨ha.dot_not_mem, hb.dot_not_mem, hc.dot_not_mem⟩

def unusualRequest : KeyRequest :=
  ⟨"\"\\\n. \u00e9", "", some "", none, some .api, ⟨-1, 500000000⟩, some ⟨253402300799, 999999999⟩⟩

theorem unusualRequest_reads_back : unusualRequest.issuedAt.IsRegular ∧
    (∀ e, unusualRequest.expiresAt = some e → e.IsRegular) ∧
    ∃ k token, (Tokenizer.mk ⟨"key"⟩).issue unusualRequest = .ok (k, token) ∧ k.issuedAt = ⟨-1, 0⟩ ∧
      (Tokenizer.mk ⟨"key"⟩).parse token ⟨253402300798, 999999999⟩ = .ok k := by
  have hissued : unusualRequest.issuedAt.IsRegular := ⟨by decide, by decide⟩
  have hexpires : ∀ e, unusualRequest.expiresAt = some e → e.IsRegular := by
    intro e he
    cases he
    exact ⟨by decide, by decide⟩
  obtain ⟨hissue, hread⟩ := issued_reads_back ⟨⟨"key"⟩⟩ unusualRequest hissued hexpires
  obtain ⟨k, token, hk⟩ :=
    hissue.2 ⟨by decide, by decide, by decide, fun e he => by cases he; decide⟩
  obtain ⟨⟨ty, -, hkey⟩, -, hparse⟩ := hread k token hk
  refine ⟨hissued, hexpires, k, token, hk, ?_, ?_⟩
  · rw [hkey]
    rfl
  · rw [hparse, hkey]
    intro e he
    cases he
    exact .inl (by decide)

end Tokenizer
end AccessControl
