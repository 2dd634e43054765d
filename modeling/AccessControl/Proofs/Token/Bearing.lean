import AccessControl.Proofs.Token.Claims

/-! # Keys that a document bears

When claims that were read from a document give a key, the document is an object, and every part of
the key stands in a field of it or is what the absence of that field means. A list of claims has no
place for the type of a key, so it gives none.
-/
namespace AccessControl.Token

variable {known fields : List (String × Value)} {name : String} {v : Value} {c : Claims} {k : Key}

def Offers {α : Type} (fields : List (String × Value)) (name : String) (f : α → Value) :
    Option α → Prop
  | some a => Value.lookup name fields = some (f a)
  | none => Value.lookup name fields = none ∨ Value.lookup name fields = some .null

structure Bears (fields : List (String × Value)) (k : Key) : Prop where
  authority : Value.lookup "iss" fields = some (.string Claims.ownAuthority)
  keyType : Value.lookup "type" fields = some (.int k.keyType.wire)
  subject : Value.lookup "sub" fields = some (.string k.subject)
  issuerId : Value.lookup "issuer_id" fields = some (.string k.issuerId) ∨
    Value.lookup "issuer_id" fields = none ∧ k.issuerId = ""
  keyId : Offers fields "jti" .string k.id
  email : Offers fields "email" .string k.email
  issuedAt : Value.lookup "iat" fields = some (.int k.issuedAt.seconds) ∨
    Value.lookup "iat" fields = none ∧ k.issuedAt.seconds = 0
  expiresAt : Offers fields "exp" (fun t => .int t.seconds) k.expiresAt ∨
    Value.lookup "exp" fields = some (.int 0) ∧ k.expiresAt = none
  representable : k.Representable

namespace Claims

theorem IsReadFrom.of_pick (hread : c.IsReadFrom known) (h : layout.pick fields = some known) :
    c.IsReadFrom fields where
  authority := (Layout.orElse_of_pick h (by decide)).symm.trans hread.authority
  subject := (Layout.orElse_of_pick h (by decide)).symm.trans hread.subject
  issuedAt := (Layout.orElse_of_pick h (by decide)).symm.trans hread.issuedAt
  expiresAt := (Layout.orElse_of_pick h (by decide)).symm.trans hread.expiresAt
  keyId := (Layout.orElse_of_pick h (by decide)).symm.trans hread.keyId
  issuerId := (Layout.orElse_of_pick h (by decide)).symm.trans hread.issuerId
  email := (Layout.orElse_of_pick h (by decide)).symm.trans hread.email
  keyType := (Layout.orElse_of_pick h (by decide)).symm.trans hread.keyType

theorem lookup_zip_eq_none {names : List String} {items : List Value}
    (h : name ∉ names.take items.length) :
    Value.lookup name (names.zip items) = none := by
  induction names generalizing items with
  | nil => rfl
  | cons n names ih =>
    cases items with
    | nil => rfl
    | cons v items =>
      rw [List.length_cons, List.take_succ_cons, List.mem_cons, not_or] at h
      rw [List.zip_cons_cons, Value.lookup, if_neg (Ne.symm h.1)]
      exact ih h.2

/-- A list of claims ends before the type. -/
theorem object_of_isReadFrom (hknown : layout.read v = some known) (hplaced : isPlaced v = true)
    (hread : c.IsReadFrom known) (htype : c.keyType ≠ none) :
    ∃ fields, v = .object fields ∧ layout.pick fields = some known := by
  cases v with
  | object fields => exact ⟨fields, rfl, hknown⟩
  | array items =>
    have hlength : items.length = listLength := beq_iff_eq.1 hplaced
    have hzip : known = layout.names.zip items := by
      rw [Layout.read, Layout.place] at hknown
      split at hknown
      · cases hknown
      split at hknown
      · exact (Option.some.inj hknown).symm
      · cases hknown
    have hlookup : Value.lookup "type" known = none := by
      rw [hzip]
      apply lookup_zip_eq_none
      rw [hlength]
      decide
    have hnone := hread.keyType
    rw [Value.orElse, hlookup] at hnone
    exact absurd (Option.some.inj hnone).symm htype
  | _ => cases hknown

theorem offers_of_orElse {α : Type} {f : Value → Option α} {g : α → Value} {o : Option α}
    (hread : ∀ {v a}, f v = some a → v = g a) (hnull : f .null = none)
    (h : Value.orElse name (Value.asOption f) none fields = some o) : Offers fields name g o := by
  rcases Value.orElse_eq_some_iff.1 h with ⟨v, hlookup, hv⟩ | ⟨hlookup, rfl⟩
  · rcases (Value.asOption_eq_some_iff hnull).1 hv with ⟨rfl, rfl⟩ | ⟨a, ha, rfl⟩
    · exact .inr hlookup
    · rw [hread ha] at hlookup
      exact hlookup
  · exact .inl hlookup

/-- A text that is not the default stands in its field. -/
theorem lookup_of_orElse_asString {s default : String}
    (h : Value.orElse name Value.asString default fields = some s) :
    Value.lookup name fields = some (.string s) ∨ Value.lookup name fields = none ∧
      s = default := by
  rcases Value.orElse_eq_some_iff.1 h with ⟨v, hlookup, hv⟩ | hmissing
  · rw [Value.asString_eq_some_iff.1 hv] at hlookup
    exact .inl hlookup
  · exact .inr hmissing

theorem int_of_stamp {z : Int} (h : stamp v = some z) : v = .int z :=
  (Value.asInt_eq_some_iff.1 h).1

/-- All that stands in the key of some claims is said by the fields that these were read from. -/
theorem bears_of_isReadFrom (hread : c.IsReadFrom fields) (hk : c.toKey = .ok k) :
    Bears fields k := by
  obtain ⟨hc, hsubject, hissued, hexpiry⟩ := toKey_eq_ok_iff.1 hk
  obtain ⟨hissuedWhole, hissuedSeconds⟩ := stampInstant_eq_ok_iff.1 hissued
  have hexpires : Offers fields "exp" .int c.expiresAt :=
    offers_of_orElse int_of_stamp rfl hread.expiresAt
  rw [hc] at hread
  constructor
  case authority =>
    rcases lookup_of_orElse_asString hread.authority with h | ⟨-, h⟩
    · exact h
    · exact absurd h (show ownAuthority ≠ "" by decide)
  case keyType =>
    have hoffers : Offers fields "type" (fun (n : Nat) => .int n) (some k.keyType.wire) :=
      offers_of_orElse (fun h => (Value.asNat_eq_some_iff.1 h).1) rfl hread.keyType
    exact hoffers
  case subject =>
    rcases lookup_of_orElse_asString hread.subject with h | ⟨-, h⟩
    · exact h
    · exact absurd h hsubject
  case issuerId => exact lookup_of_orElse_asString hread.issuerId
  case keyId => exact offers_of_orElse Value.asString_eq_some_iff.1 rfl hread.keyId
  case email => exact offers_of_orElse Value.asString_eq_some_iff.1 rfl hread.email
  case issuedAt =>
    rw [hissuedSeconds]
    rcases Value.orElse_eq_some_iff.1 hread.issuedAt with ⟨v, hlookup, hv⟩ | hmissing
    · rw [int_of_stamp hv] at hlookup
      exact .inl hlookup
    · exact .inr hmissing
  case expiresAt =>
    rcases expiry_eq_ok_iff.1 hexpiry with ⟨hnone | hzero, hk⟩ | ⟨t, ht, -, -, hk⟩
    · rw [hnone] at hexpires
      rw [hk]
      exact .inl hexpires
    · rw [hzero] at hexpires
      exact .inr ⟨hexpires, hk⟩
    · rw [ht] at hexpires
      rw [hk]
      exact .inl hexpires
  case representable =>
    refine ⟨hsubject, hissuedWhole, ?_⟩
    intro t ht
    rcases expiry_eq_ok_iff.1 hexpiry with ⟨-, hk⟩ | ⟨e, -, hne, hwhole, hk⟩
    · rw [hk] at ht
      cases ht
    · rw [hk] at ht
      cases ht
      exact ⟨hwhole, hne⟩

theorem bears_of_ofValue (hv : ofValue v = some c) (hk : c.toKey = .ok k) :
    ∃ fields, v = .object fields ∧ Bears fields k := by
  obtain ⟨known, hknown, hread, hplaced, -⟩ := ofValue_eq_some_iff.1 hv
  have htype : c.keyType ≠ none := by
    rw [(toKey_eq_ok_iff.1 hk).1]
    exact Option.some_ne_none _
  obtain ⟨fields, rfl, hpick⟩ := object_of_isReadFrom hknown hplaced hread htype
  exact ⟨fields, rfl, bears_of_isReadFrom (hread.of_pick hpick) hk⟩

end Claims
end AccessControl.Token
