import AccessControl.Proofs.Tokenizer.RoundTrip

/-! # What acceptance says, and tokens that cannot be bent

A token that is accepted names its algorithm, is signed by the shared secret and bears the key it is
read as. Its first two parts hold no dot, so a text that begins like it is cut at the same places,
and only one third part goes with them.
-/
namespace AccessControl.Tokenizer
open Token (Claims)
open Text (Octets)

variable {t : Tokenizer} {r : KeyRequest} {key : Octets} {s h c x : List Char} {k : Key}
  {token : String} {now : Instant}

theorem bears_of_read (hread : read key s = .ok k) : ∃ h c,
    s = joined h c (signature key (h ++ '.' :: c)) ∧ '.' ∉ h ∧ '.' ∉ c ∧
    (∃ header, Holds h header ∧ Token.algorithmOf header = some Token.signingAlgorithm) ∧
    ∃ fields, Holds c (.object fields) ∧ Token.Bears fields k := by
  obtain ⟨h, c, hs, ⟨header, hheader, halgorithm⟩, v, claims, hv, hclaims, hkey⟩ :=
    read_eq_ok_iff.1 hread
  obtain ⟨fields, rfl, hbears⟩ := Claims.bears_of_ofValue hclaims hkey
  exact ⟨h, c, hs, hheader.dot_not_mem, hv.dot_not_mem, ⟨header, hheader, halgorithm⟩,
    fields, hv, hbears⟩

/-- A signed text has two dots only, so it is cut in one way. -/
theorem eq_signature_of_joined {h' c' : List Char} (hh : '.' ∉ h) (hc : '.' ∉ c)
    (hs : joined h' c' x = joined h c (signature key (h ++ '.' :: c))) :
    x = signature key (h' ++ '.' :: c') := by
  have hcount : (joined h' c' x).count '.' = 2 := by
    rw [hs]
    exact count_dot_eq_two_iff.2 ⟨hh, hc, dot_not_mem_signature _ _⟩
  obtain ⟨hh', hc', -⟩ := count_dot_eq_two_iff.1 hcount
  obtain ⟨rfl, rfl, hx⟩ := joined_inj hh' hc' hh hc hs
  exact hx

theorem eq_signature_of_read (hread : read key (joined h c x) = .ok k) :
    x = signature key (h ++ '.' :: c) := by
  obtain ⟨h', c', hs, hh', hc', -⟩ := bears_of_read hread
  exact eq_signature_of_joined hh' hc' hs

/-- A text that some more would make a signed text is not read: cut there, its third part would be a
signature longer than itself. -/
theorem read_ne_ok_of_append (hh : '.' ∉ h) (hc : '.' ∉ c) (hx : x ≠ [])
    (hs : s ++ x = joined h c (signature key (h ++ '.' :: c))) : read key s ≠ .ok k := by
  intro hread
  obtain ⟨h', c', rfl, hh', hc', -⟩ := bears_of_read hread
  rw [joined_append] at hs
  obtain ⟨rfl, rfl, hsignature⟩ := joined_inj hh' hc' hh hc hs
  exact hx (List.append_right_eq_self.1 hsignature)

theorem signed_of_issue (hissue : t.issue r = .ok (k, token)) : t.secret.isBlank = false ∧ ∃ h c,
    token.toList = joined h c (signature t.secret.octets (h ++ '.' :: c)) ∧ '.' ∉ h ∧ '.' ∉ c := by
  obtain ⟨hsecret, -, -, ty, -, -, rfl⟩ := issue_eq_ok_iff.1 hissue
  refine ⟨hsecret, part Token.header, part (Claims.ofKey k).toValue, ?_, ?_, ?_⟩
  · rw [String.toList_ofList, assemble_eq]
  · exact Base64Url.dot_not_mem_encode _
  · exact Base64Url.dot_not_mem_encode _

def Refuses (t : Tokenizer) (token : String) (now : Instant) : Prop :=
  ∃ reason, t.parse token now = .error (.malformedToken reason)

theorem refuses_shorter {shorter more : String} (hissue : t.issue r = .ok (k, token))
    (hmore : more ≠ "") (htoken : token = shorter ++ more) : t.Refuses shorter now := by
  obtain ⟨hsecret, h, c, hlist, hh, hc⟩ := signed_of_issue hissue
  rw [htoken, String.toList_append] at hlist
  have hne : more.toList ≠ [] := fun hnil => hmore (String.toList_eq_nil_iff.1 hnil)
  exact parse_malformed hsecret fun _ => read_ne_ok_of_append hh hc hne hlist

theorem refuses_longer {more : String} (hissue : t.issue r = .ok (k, token)) (hmore : more ≠ "") :
    t.Refuses (token ++ more) now := by
  obtain ⟨hsecret, h, c, hlist, -, -⟩ := signed_of_issue hissue
  refine parse_malformed hsecret fun k' hread => ?_
  rw [String.toList_append, hlist, joined_append] at hread
  have hnil := List.append_right_eq_self.1 (eq_signature_of_read hread)
  exact hmore (String.toList_eq_nil_iff.1 hnil)

theorem refuses_other_third {x' : List Char} (hissue : t.issue r = .ok (k, token))
    (htoken : token.toList = joined h c x) (hx : x' ≠ x) :
    t.Refuses (String.ofList (joined h c x')) now := by
  obtain ⟨hsecret, h', c', hlist, hh', hc'⟩ := signed_of_issue hissue
  refine parse_malformed hsecret fun k' hread => ?_
  rw [String.toList_ofList] at hread
  have hx' := eq_signature_of_read hread
  rw [htoken] at hlist
  exact hx (hx'.trans (eq_signature_of_joined hh' hc' hlist).symm)

/-- What is accepted is signed and bears its key, two parts go with one signature, and an issued
token is refused when it is cut, extended or given another third part. -/
theorem accepted_bears_key (t : Tokenizer) :
    (∀ token now k, t.parse token now = .ok k → ∃ h c s, token.toList = joined h c s ∧
      '.' ∉ c ∧ '.' ∉ s ∧
      (∃ header, Holds h header ∧ Token.algorithmOf header = some "HS256") ∧
      s = Base64Url.encode (Hmac.digest t.secret.octets (octetsOfChars (h ++ '.' :: c))) ∧
      ∃ fields, Holds c (.object fields) ∧ Token.Bears fields k) ∧
    (∀ h c s s' now now' k k', t.parse (String.ofList (joined h c s)) now = .ok k →
      t.parse (String.ofList (joined h c s')) now' = .ok k' → s = s') ∧
    ∀ r k token, t.issue r = .ok (k, token) → ∀ now,
      (∀ shorter more, more ≠ "" → token = shorter ++ more → t.Refuses shorter now) ∧
      (∀ more, more ≠ "" → t.Refuses (token ++ more) now) ∧
      ∀ h c s s', token.toList = joined h c s → s' ≠ s →
        t.Refuses (String.ofList (joined h c s')) now := by
  refine ⟨?_, ?_, ?_⟩
  · intro token now k hparse
    obtain ⟨-, hread, -⟩ := parse_eq_ok_iff.1 hparse
    obtain ⟨h, c, htoken, -, hc, hheader, hclaims⟩ := bears_of_read hread
    exact ⟨h, c, _, htoken, hc, dot_not_mem_signature _ _, hheader, rfl, hclaims⟩
  · intro h c s s' now now' k k' hparse hparse'
    have hread := (parse_eq_ok_iff.1 hparse).2.1
    have hread' := (parse_eq_ok_iff.1 hparse').2.1
    rw [String.toList_ofList] at hread hread'
    rw [eq_signature_of_read hread, eq_signature_of_read hread']
  · intro r k token hissue now
    refine ⟨?_, ?_, ?_⟩
    · exact fun shorter more hmore htoken => refuses_shorter hissue hmore htoken
    · exact fun more hmore => refuses_longer hissue hmore
    · exact fun h c s s' htoken hs => refuses_other_third hissue htoken hs

end AccessControl.Tokenizer
