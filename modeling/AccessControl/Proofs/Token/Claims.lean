import AccessControl.Proofs.Calendar.Moments
import AccessControl.Proofs.Json.Documents
import AccessControl.Proofs.Json.Records
import AccessControl.Token.Claims

/-! # Claims and what they say of a key

What claims must say for a key to come of them, and what must stand in the fields of a document for
claims to be read from it. The claims of a key are read back from their own document as they are,
and give that key.
-/
namespace AccessControl

/-- A key that claims can carry: it has a subject, whole seconds for its times, and no expiry in the
second that stands for none. -/
structure Key.Representable (k : Key) : Prop where
  subject : k.subject ≠ ""
  issuedAt : k.issuedAt.IsWhole
  expiresAt : ∀ t ∈ k.expiresAt, t.IsWhole ∧ t.seconds ≠ 0

theorem KeyType.ofWire_eq_ok_iff {n : Nat} {t : KeyType} : ofWire n = .ok t ↔ n = t.wire := by
  constructor
  · intro h
    rw [ofWire] at h
    split at h
    · rename_i found hfound
      cases h
      have hwire := List.find?_some hfound
      exact (beq_iff_eq.1 hwire).symm
    · cases h
  · rintro rfl
    exact ofWire_wire t

namespace Token.Claims

variable {c : Claims} {k : Key} {v : Value} {t : Instant}

theorem stampInstant_seconds (h : t.IsWhole) : stampInstant t.seconds = .ok t := by
  obtain ⟨seconds, nanos⟩ := t
  obtain ⟨rfl, hseconds⟩ := h
  simp only at hseconds
  rw [stampInstant, Instant.ofSeconds?, if_pos hseconds]

theorem stampInstant_eq_ok_iff {n : Int} {t : Instant} :
    stampInstant n = .ok t ↔ t.IsWhole ∧ t.seconds = n := by
  constructor
  · intro h
    rw [stampInstant, Instant.ofSeconds?] at h
    split at h
    · rename_i found hfound
      cases h
      obtain ⟨hn, he⟩ := Option.ite_none_right_eq_some.1 hfound
      cases he
      exact ⟨⟨rfl, hn⟩, rfl⟩
    · cases h
  · rintro ⟨hwhole, rfl⟩
    exact stampInstant_seconds hwhole

/-- No expiry is written as zero or not at all; every other number is the whole second that it
counts. -/
theorem expiry_eq_ok_iff {n : Option Int} {e : Option Instant} :
    expiry n = .ok e ↔ (n = none ∨ n = some 0) ∧ e = none ∨
      ∃ t : Instant, n = some t.seconds ∧ t.seconds ≠ 0 ∧ t.IsWhole ∧ e = some t := by
  cases n with
  | none => simp [expiry, eq_comm]
  | some n =>
    by_cases hzero : n = 0
    · subst hzero
      rw [expiry, if_pos rfl]
      constructor
      · intro h
        cases h
        exact .inl ⟨.inr rfl, rfl⟩
      · rintro (⟨-, rfl⟩ | ⟨t, ht, hne, -⟩)
        · rfl
        · exact absurd (Option.some.inj ht).symm hne
    · rw [expiry, if_neg hzero]
      constructor
      · intro h
        cases hstamp : stampInstant n with
        | error e =>
          rw [hstamp] at h
          cases h
        | ok t =>
          rw [hstamp] at h
          cases h
          obtain ⟨hwhole, rfl⟩ := stampInstant_eq_ok_iff.1 hstamp
          exact .inr ⟨t, rfl, hzero, hwhole, rfl⟩
      · rintro (⟨h | h, -⟩ | ⟨t, ht, -, hwhole, rfl⟩)
        · cases h
        · exact absurd (Option.some.inj h) hzero
        · cases ht
          rw [stampInstant_seconds hwhole]
          rfl

/-- Claims carry a key exactly when there is a subject and both times can be read. -/
theorem toKey_eq_ok_iff :
    c.toKey = .ok k ↔ c = { ofKey k with issuedAt := c.issuedAt, expiresAt := c.expiresAt } ∧
      k.subject ≠ "" ∧
      stampInstant c.issuedAt = .ok k.issuedAt ∧ expiry c.expiresAt = .ok k.expiresAt := by
  obtain ⟨authority, subject, issuedAt, expiresAt, keyId, issuerId, email, keyType⟩ := c
  rw [toKey, Result.guard_eq_ok_iff]
  cases keyType with
  | none => simp [ofKey]
  | some n =>
    simp only [Result.bind_eq_ok_iff, Result.guard_eq_ok_iff, KeyType.ofWire_eq_ok_iff]
    constructor
    · rintro ⟨hauthority, t, rfl, hsubject, issued, hissued, expires, hexpires, hk⟩
      cases hk
      refine ⟨?_, ?_, hissued, hexpires⟩
      · rw [Decidable.of_not_not hauthority]
        rfl
      · exact fun h => hsubject (String.isEmpty_iff.2 h)
    · rintro ⟨hc, hsubject, hissued, hexpires⟩
      cases hc
      have hne : ¬k.subject.isEmpty = true := fun h => hsubject (String.isEmpty_iff.1 h)
      exact ⟨not_not_intro rfl, k.keyType, rfl, hne, _, hissued, _, hexpires, rfl⟩

theorem toKey_ofKey (h : k.Representable) : (ofKey k).toKey = .ok k := by
  refine toKey_eq_ok_iff.2 ⟨rfl, h.subject, stampInstant_seconds h.issuedAt, expiry_eq_ok_iff.2 ?_⟩
  cases hk : k.expiresAt with
  | none =>
    left
    simp only [ofKey, hk, Option.map_none, true_or, and_self]
  | some e =>
    right
    obtain ⟨hwhole, hzero⟩ := h.expiresAt e hk
    exact ⟨e, by simp only [ofKey, hk, Option.map_some], hzero, hwhole, rfl⟩

structure IsReadFrom (c : Claims) (fields : List (String × Value)) : Prop where
  authority : Value.orElse "iss" Value.asString "" fields = some c.authority
  subject : Value.orElse "sub" Value.asString "" fields = some c.subject
  issuedAt : Value.orElse "iat" stamp 0 fields = some c.issuedAt
  expiresAt : Value.orElse "exp" (Value.asOption stamp) none fields = some c.expiresAt
  keyId : Value.orElse "jti" (Value.asOption Value.asString) none fields = some c.keyId
  issuerId : Value.orElse "issuer_id" Value.asString "" fields = some c.issuerId
  email : Value.orElse "email" (Value.asOption Value.asString) none fields = some c.email
  keyType : Value.orElse "type" (Value.asOption (Value.asNat greatestType)) none fields =
    some c.keyType

/-- A document has claims exactly when its fields can be read as such, and the two that are only
checked have an admissible form. -/
theorem ofValue_eq_some_iff :
    ofValue v = some c ↔ ∃ fields, layout.read v = some fields ∧ c.IsReadFrom fields ∧
    isPlaced v = true ∧ (Value.lookup "nbf" fields).all isStart = true ∧
    (Value.lookup "aud" fields).all isAudience = true := by
  simp only [ofValue, Option.bind_eq_bind, Option.bind_eq_some_iff]
  constructor
  · rintro ⟨fields, hfields, authority, hauthority, subject, hsubject, issuedAt, hissued, expiresAt,
      hexpires, keyId, hid, issuerId, hissuer, email, hemail, keyType, htype, h⟩
    split at h
    · rename_i hchecks
      cases h
      simp only [Bool.and_eq_true] at hchecks
      exact ⟨fields, hfields,
        ⟨hauthority, hsubject, hissued, hexpires, hid, hissuer, hemail, htype⟩, hchecks.1.1,
        hchecks.1.2, hchecks.2⟩
    · cases h
  · rintro ⟨fields, hfields, h, hplaced, hstart, haudience⟩
    refine ⟨fields, hfields, _, h.authority, _, h.subject, _, h.issuedAt, _, h.expiresAt, _,
      h.keyId, _, h.issuerId, _, h.email, _, h.keyType, ?_⟩
    rw [hplaced, hstart, haudience]
    rfl

def entries (c : Claims) : List (String × Option Value) :=
  [("iss", some (.string c.authority)), ("sub", some (.string c.subject)),
    ("iat", some (.int c.issuedAt)), ("exp", c.expiresAt.map .int), ("jti", c.keyId.map .string),
    ("issuer_id", if c.issuerId.isEmpty then none else some (.string c.issuerId)),
    ("email", c.email.map .string),
    ("type", some ((c.keyType.map fun (n : Nat) => Value.int n).getD .null))]

def said (entries : List (String × Option Value)) : List (String × Value) :=
  entries.flatMap fun e => field e.1 e.2

theorem toValue_eq (c : Claims) : c.toValue = .object (said c.entries) := by
  simp only [toValue, said, entries, field, List.flatMap_cons, List.flatMap_nil, List.append_assoc,
    List.append_nil]
  cases c.keyType <;> rfl

theorem lookup_said (entries : List (String × Option Value)) (name : String) :
    Value.lookup name (said entries) = entries.findSome? fun e => if e.1 = name then e.2
      else none := by
  induction entries with
  | nil => rfl
  | cons e entries ih =>
    obtain ⟨n, o⟩ := e
    rw [said, List.flatMap_cons, List.findSome?_cons, ← ih]
    cases o with
    | none => simp only [field, List.nil_append, ite_self]; rfl
    | some v =>
      simp only [field, List.singleton_append, Value.lookup]
      by_cases hn : n = name
      · rw [if_pos hn, if_pos hn]
      · rw [if_neg hn, if_neg hn]; rfl

theorem names_said_sublist (entries : List (String × Option Value)) :
    ((said entries).map (·.1)).Sublist (entries.map (·.1)) := by
  induction entries with
  | nil => exact List.Sublist.slnil
  | cons e entries ih =>
    obtain ⟨n, o⟩ := e
    rw [said, List.flatMap_cons, List.map_append, List.map_cons]
    cases o with
    | none => exact ih.cons n
    | some v => exact ih.cons_cons n

theorem read_toValue (c : Claims) : layout.read c.toValue = some (said c.entries) := by
  have hnames : ((said c.entries).map (·.1)).Sublist layout.names :=
    (names_said_sublist c.entries).trans (List.sublist_append_left _ ["nbf", "aud"])
  rw [toValue_eq]
  exact Layout.pick_of_sublist hnames (by decide) rfl (by decide)

def IsStamp (z : Int) : Prop := leastStamp ≤ z ∧ z ≤ greatestStamp

structure InBounds (c : Claims) : Prop where
  issuedAt : IsStamp c.issuedAt
  expiresAt : ∀ n ∈ c.expiresAt, IsStamp n
  keyType : ∀ n ∈ c.keyType, n ≤ greatestType

theorem stamp_int {z : Int} (h : IsStamp z) : stamp (.int z) = some z :=
  Value.asInt_eq_some_iff.2 ⟨rfl, h.1, h.2⟩

theorem orElse_asOption {α : Type} {name : String} {fields : List (String × Value)}
    {f : Value → Option α} {g : α → Value} {o : Option α}
    (hlookup : Value.lookup name fields = o.map g)
    (hread : ∀ a ∈ o, Value.asOption f (g a) = some (some a)) :
    Value.orElse name (Value.asOption f) none fields = some o := by
  rw [Value.orElse, hlookup]
  cases o with
  | none => rfl
  | some a => exact hread a rfl

/-- What claims say is read back as these claims. An empty issuer is not written, and its absence
means an empty one. -/
theorem isReadFrom_said (h : c.InBounds) : c.IsReadFrom (said c.entries) where
  authority := by
    rw [Value.orElse, lookup_said]
    rfl
  subject := by
    rw [Value.orElse, lookup_said]
    rfl
  issuedAt := by
    rw [Value.orElse, lookup_said]
    exact stamp_int h.issuedAt
  expiresAt := by
    apply orElse_asOption (g := Value.int)
    · rw [lookup_said, entries]
      cases c.expiresAt <;> rfl
    · intro n hn
      exact congrArg (Option.map some) (stamp_int (h.expiresAt n hn))
  keyId := by
    apply orElse_asOption (g := Value.string)
    · rw [lookup_said, entries]
      cases c.keyId <;> rfl
    · exact fun _ _ => rfl
  issuerId := by
    rw [Value.orElse, lookup_said, entries]
    cases hempty : c.issuerId.isEmpty with
    | true =>
      rw [String.isEmpty_iff.1 hempty]
      rfl
    | false => rfl
  email := by
    apply orElse_asOption (g := Value.string)
    · rw [lookup_said, entries]
      cases c.email <;> rfl
    · exact fun _ _ => rfl
  keyType := by
    rw [Value.orElse, lookup_said, entries]
    cases hk : c.keyType with
    | none => rfl
    | some n => exact congrArg (Option.map some) (Value.asNat_eq_some_iff.2 ⟨rfl, h.keyType n hk⟩)

theorem ofValue_toValue (h : c.InBounds) : ofValue c.toValue = some c := by
  refine ofValue_eq_some_iff.2 ⟨_, read_toValue c, isReadFrom_said h, ?_, ?_, ?_⟩
  · rw [toValue_eq]
    rfl
  · rw [lookup_said]
    rfl
  · rw [lookup_said]
    rfl

theorem plain_said {entries : List (String × Option Value)}
    (h : ∀ e ∈ entries, ∀ v ∈ e.2, v.Plain) :
    (Value.object (said entries)).Plain := by
  apply Value.Plain.object
  intro f hf
  obtain ⟨⟨n, o⟩, he, hfield⟩ := List.mem_flatMap.1 hf
  cases o with
  | none => cases hfield
  | some v =>
    obtain rfl := List.mem_singleton.1 hfield
    exact h _ he v rfl

theorem plain_int {z : Int} (h : IsStamp z) : (Value.int z).Plain := by
  obtain ⟨hleast, hgreatest⟩ := h
  refine .int hleast (Int.le_trans hgreatest ?_)
  decide

/-- Claims are a plain tree, so their text is read back. -/
theorem plain_toValue (h : c.InBounds) : c.toValue.Plain := by
  rw [toValue_eq]
  apply plain_said
  simp only [entries, List.forall_mem_cons, List.not_mem_nil, false_implies, implies_true, and_true,
    Option.mem_def, Option.some.injEq, forall_eq']
  refine ⟨.string _, .string _, plain_int h.issuedAt, ?_, ?_, ?_, ?_, ?_⟩
  · intro v hv
    obtain ⟨n, hn, rfl⟩ := Option.map_eq_some_iff.1 hv
    exact plain_int (h.expiresAt n hn)
  · intro v hv
    obtain ⟨s, hs, rfl⟩ := Option.map_eq_some_iff.1 hv
    exact .string s
  · intro v hv
    obtain ⟨_, hv⟩ := Option.ite_none_left_eq_some.1 hv
    cases hv
    exact .string _
  · intro v hv
    obtain ⟨s, hs, rfl⟩ := Option.map_eq_some_iff.1 hv
    exact .string s
  · cases hk : c.keyType with
    | none => exact .null
    | some n =>
      have hn : n ≤ greatestType := h.keyType n hk
      refine plain_int ⟨Int.le_trans (by decide) (Int.natCast_nonneg n), ?_⟩
      exact Int.le_trans (Int.ofNat_le.2 hn) (by decide)

theorem isStamp_of_inCalendar {z : Int} (h : Instant.inCalendar z = true) : IsStamp z := by
  simp only [Instant.inCalendar, Bool.and_eq_true, decide_eq_true_eq] at h
  exact ⟨Int.le_trans (by decide) h.1, Int.le_trans h.2 (by decide)⟩

theorem inBounds_ofKey (h : k.Representable) : (ofKey k).InBounds where
  issuedAt := isStamp_of_inCalendar h.issuedAt.seconds
  expiresAt n hn := by
    obtain ⟨t, ht, rfl⟩ := Option.map_eq_some_iff.1 hn
    exact isStamp_of_inCalendar (h.expiresAt t ht).1.seconds
  keyType n hn := by
    cases hn
    cases k.keyType <;> decide

end Token.Claims
end AccessControl
