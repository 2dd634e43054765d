import AccessControl.Proofs.Tokenizer.Acceptance

/-! # Expiries that are asked for

A request that asks for an expiry is refused, or its key ends in the second of the moment that was
asked for, and so does the key that is read from its token. A lifetime that leads out of the
calendar leads to a moment that no token may name.
-/
namespace AccessControl

def Key.inSeconds (k : Key) : Key :=
  { k with issuedAt := ⟨k.issuedAt.seconds, 0⟩, expiresAt := k.expiresAt.map fun e =>
    ⟨e.seconds, 0⟩ }

theorem Token.Claims.ofKey_inSeconds (k : Key) : ofKey k.inSeconds = ofKey k := by
  simp [ofKey, Key.inSeconds, Function.comp_def]

namespace KeyRequest

variable {r : KeyRequest} {e : Instant} {l : Lifetime}

theorem endOf?_eq_some_iff :
    r.endOf? l = some e ↔ l ≤ Lifetime.greatest ∧ r.issuedAt.add? l = some e :=
  Option.ite_none_right_eq_some

theorem expiresIn_of_end (h : r.endOf? l = some e) :
    r.expiresIn l = { r with expiresAt := some e } := by
  rw [expiresIn, h]
  rfl

theorem expiresIn_of_no_end (h : r.endOf? l = none) :
    r.expiresIn l = { r with expiresAt := some Instant.latest } := by
  rw [expiresIn, h]
  rfl

theorem isRegular_expiresIn (hissued : r.issuedAt.IsRegular)
    (he : (r.expiresIn l).expiresAt = some e) :
    e.IsRegular := by
  cases hend : r.endOf? l with
  | none =>
    rw [expiresIn_of_no_end hend] at he
    cases he
    exact Instant.latest_isRegular
  | some t =>
    rw [expiresIn_of_end hend] at he
    cases he
    exact (hissued.add?_eq_some_iff.1 (endOf?_eq_some_iff.1 hend).2).1

/-- When a lifetime ends, told by counts of nanoseconds. -/
theorem endOf?_iff_elapsed (hissued : r.issuedAt.IsRegular) (l : Lifetime) :
    (∀ e, r.endOf? l = some e ↔
      l ≤ Lifetime.greatest ∧ e.IsRegular ∧ e.elapsed = r.issuedAt.elapsed + l) ∧
    (r.endOf? l = none ↔ Lifetime.greatest < l ∨
      Instant.latest.elapsed < r.issuedAt.elapsed + l) := by
  constructor
  · intro e
    rw [endOf?_eq_some_iff, hissued.add?_eq_some_iff]
  · rw [endOf?, ite_eq_right_iff, hissued.add?_eq_none_iff, ← Nat.not_le]
    exact Decidable.imp_iff_not_or

end KeyRequest

namespace Tokenizer
open Token (Claims)

variable {t : Tokenizer} {r : KeyRequest} {k : Key} {token : String} {e now : Instant}
  {l : Lifetime}

def FailsToSign {α : Type} (r : Result α) : Prop :=
  r.FailsOnlyWith fun e => ∃ reason, e = .signing reason

theorem failsToSign_signingKey (t : Tokenizer) : FailsToSign t.signingKey := by
  rw [signingKey]
  exact .guard ⟨_, rfl⟩ (.ok _)

theorem failsToSign_checkExpiry (e : Option Instant) : FailsToSign (checkExpiry e) := by
  cases e with
  | none => exact .ok ()
  | some e => exact .guard ⟨_, rfl⟩ (.guard ⟨_, rfl⟩ (.ok ()))

theorem failsToSign_issue (t : Tokenizer) (r : KeyRequest) : FailsToSign (t.issue r) := by
  refine .bind (failsToSign_signingKey t) fun signing => ?_
  cases r.keyType with
  | none => exact .error ⟨_, rfl⟩
  | some ty => exact .guard ⟨_, rfl⟩ (.bind (failsToSign_checkExpiry _) fun _ => .ok _)

theorem issue_cases (t : Tokenizer) (r : KeyRequest) :
    (∃ reason, t.issue r = .error (.signing reason)) ∨ ∃ k token, t.issue r = .ok (k, token) := by
  cases hissue : t.issue r with
  | error e =>
    obtain ⟨reason, rfl⟩ := failsToSign_issue t r e hissue
    exact .inl ⟨reason, rfl⟩
  | ok issued => exact .inr ⟨issued.1, issued.2, rfl⟩

/-- An issued token reads as its key with times in seconds, also when it was asked for in an
inserted second. -/
theorem read_issued (hissued : Instant.inCalendar r.issuedAt.seconds = true)
    (hexpires : ∀ e, r.expiresAt = some e → Instant.inCalendar e.seconds = true)
    (h : t.issue r = .ok (k, token)) :
    read t.secret.octets token.toList = .ok k.inSeconds := by
  obtain ⟨-, hsubject, hrange, ty, -, rfl, rfl⟩ := issue_eq_ok_iff.1 h
  have hrepresentable : (Key.ofRequest r ty).inSeconds.Representable := by
    refine ⟨hsubject, ⟨rfl, hissued⟩, ?_⟩
    intro e he
    simp only [Key.inSeconds, Key.ofRequest, Option.map_map, Option.mem_def,
      Option.map_eq_some_iff] at he
    obtain ⟨a, ha, rfl⟩ := he
    have hone := (hrange a ha).1
    refine ⟨⟨rfl, hexpires a ha⟩, ?_⟩
    show a.seconds ≠ 0
    omega
  rw [String.toList_ofList, ← Claims.ofKey_inSeconds]
  exact read_assemble hrepresentable

def NamesExpiry (token : String) (seconds : Int) : Prop :=
  ∃ h c s fields, token.toList = joined h c s ∧ '.' ∉ c ∧ '.' ∉ s ∧ Holds c (.object fields) ∧
    Value.lookup "exp" fields = some (.int seconds)

/-- A key and its token end in the second of a moment, which is after 1970 began and has a year of
four digits. Whoever reads the token before finds that expiry in it, and from that second on it has
expired. -/
structure EndsIn (t : Tokenizer) (k : Key) (token : String) (e : Instant) : Prop where
  range : 1 ≤ e.seconds ∧ e.seconds ≤ 253402300799
  expiresAt : ∃ x, k.expiresAt = some x ∧ x.seconds = e.seconds ∧ (e.IsRegular → x.nanos = 0)
  named : NamesExpiry token e.seconds
  before : ∀ now, now.IsBefore ⟨e.seconds, 0⟩ →
    ∃ k', t.parse token now = .ok k' ∧ k'.expiresAt = some ⟨e.seconds, 0⟩
  after : ∀ now, ¬now.IsBefore ⟨e.seconds, 0⟩ → t.parse token now = .error .expired

theorem namesExpiry_of_read {key : Text.Octets} (hread : read key token.toList = .ok k)
    (he : k.expiresAt = some e) : NamesExpiry token e.seconds := by
  obtain ⟨h, c, htoken, -, hc, -, fields, hholds, hbears⟩ := bears_of_read hread
  refine ⟨h, c, _, fields, htoken, hc, dot_not_mem_signature _ _, hholds, ?_⟩
  have hexp := hbears.expiresAt
  rw [he] at hexp
  rcases hexp with hexp | ⟨-, hexp⟩
  · exact hexp
  · cases hexp

/-- A key that is issued with an expiry ends in the second of that expiry, and its token says so. -/
theorem endsIn_of_issue (hissued : r.issuedAt.OnCalendar) (hexpires : r.expiresAt = some e)
    (he : e.OnCalendar) (h : t.issue r = .ok (k, token)) : t.EndsIn k token e := by
  have hall : ∀ e, r.expiresAt = some e → Instant.inCalendar e.seconds = true := by
    intro e' he'
    cases hexpires.symm.trans he'
    exact he.seconds
  have hread := read_issued hissued.seconds hall h
  obtain ⟨hsecret, -, hrange, ty, -, hk, -⟩ := issue_eq_ok_iff.1 h
  have hkey : k.expiresAt = some e.truncate := by simp [hk, Key.ofRequest, hexpires]
  have hseconds : k.inSeconds.expiresAt = some ⟨e.seconds, 0⟩ := by
    simp [Key.inSeconds, hkey, Instant.truncate]
  have hlive : ∀ now, k.inSeconds.isExpiredAt now = false ↔ now.IsBefore ⟨e.seconds, 0⟩ := by
    intro now
    simp [Key.isExpiredAt_eq_false_iff, hseconds]
  have hparse := parse_of_read hsecret hread
  have hnanos : e.IsRegular → e.truncate.nanos = 0 :=
    fun hregular => hregular.isWhole_truncate.nanos
  refine ⟨hrange e hexpires, ⟨_, hkey, rfl, hnanos⟩, ?_, ?_, ?_⟩
  · exact namesExpiry_of_read (e := ⟨e.seconds, 0⟩) hread hseconds
  · intro now hbefore
    refine ⟨_, ?_, hseconds⟩
    rw [hparse, (hlive now).2 hbefore]
    rfl
  · intro now hafter
    have hover : k.inSeconds.isExpiredAt now = true := by simpa using mt (hlive now).1 hafter
    rw [hparse, if_pos hover]

/-- A request that asks for an expiry is refused, or its key ends then, and only these conditions
decide which. -/
def Settles (t : Tokenizer) (r : KeyRequest) (e : Instant) : Prop :=
  ((∃ reason, t.issue r = .error (.signing reason)) ∨ ∃ k token, t.issue r = .ok (k, token) ∧
    t.EndsIn k token e) ∧
  ((∃ k token, t.issue r = .ok (k, token)) ↔ t.secret.isBlank = false ∧ r.keyType ≠ none ∧
    r.subject ≠ "" ∧
    1 ≤ e.seconds ∧ e.seconds ≤ 253402300799)

theorem settles (hissued : r.issuedAt.OnCalendar) (hexpires : r.expiresAt = some e)
    (he : e.OnCalendar) :
    t.Settles r e := by
  constructor
  · rcases issue_cases t r with hrefused | ⟨k, token, h⟩
    · exact .inl hrefused
    · exact .inr ⟨k, token, h, endsIn_of_issue hissued hexpires he h⟩
  · simp only [issue_eq_ok_iff, hexpires, Option.some.injEq, forall_eq']
    constructor
    · rintro ⟨k, token, hsecret, hsubject, hrange, ty, hty, -, -⟩
      exact ⟨hsecret, hty ▸ Option.some_ne_none ty, hsubject, hrange⟩
    · rintro ⟨hsecret, htype, hsubject, hrange⟩
      obtain ⟨ty, hty⟩ := Option.ne_none_iff_exists'.1 htype
      exact ⟨_, _, hsecret, hsubject, hrange, ty, hty, rfl, rfl⟩

/-- The end of the calendar is no expiry for a token. -/
theorem refused_of_no_end (h : r.endOf? l = none) (t : Tokenizer) :
    ∃ reason, t.issue (r.expiresIn l) = .error (.signing reason) := by
  rcases issue_cases t (r.expiresIn l) with hrefused | ⟨k, token, hissue⟩
  · exact hrefused
  · rw [KeyRequest.expiresIn_of_no_end h] at hissue
    obtain ⟨-, -, hrange, -⟩ := issue_eq_ok_iff.1 hissue
    exact absurd (hrange _ rfl).2 (by decide)

theorem settles_expiresIn (hissued : r.issuedAt.OnCalendar) (h : r.endOf? l = some e) :
    t.Settles (r.expiresIn l) e := by
  have he := hissued.add? (KeyRequest.endOf?_eq_some_iff.1 h).2
  rw [KeyRequest.expiresIn_of_end h]
  exact settles (r := { r with expiresAt := some e }) hissued rfl he

/-- The lifetime of a key, in whole seconds, is the difference between the seconds of its times. -/
theorem whole_lifetime {n : Nat} (hissued : r.issuedAt.OnCalendar)
    (h : t.issue (r.expiresIn (Lifetime.ofSeconds n)) = .ok (k, token)) :
    ∃ e, k.expiresAt = some e ∧ e.seconds - k.issuedAt.seconds = n ∧
      (r.issuedAt.IsRegular → e.nanos = 0 ∧ k.issuedAt.nanos = 0) := by
  cases hend : r.endOf? (Lifetime.ofSeconds n) with
  | none =>
    obtain ⟨reason, hrefused⟩ := refused_of_no_end hend t
    cases hrefused.symm.trans h
  | some e =>
    obtain ⟨-, hadd⟩ := KeyRequest.endOf?_eq_some_iff.1 hend
    have hseconds : e.seconds = r.issuedAt.seconds + n := hissued.seconds_add? hadd
    rw [KeyRequest.expiresIn_of_end hend] at h
    obtain ⟨-, -, -, ty, -, rfl, -⟩ := issue_eq_ok_iff.1 h
    refine ⟨e.truncate, rfl, ?_, ?_⟩
    · show e.seconds - r.issuedAt.seconds = n
      omega
    · intro hregular
      have he := (hregular.add?_eq_some_iff.1 hadd).1
      exact ⟨he.isWhole_truncate.nanos, hregular.isWhole_truncate.nanos⟩

/-- An expiry that is asked for is neither lost nor put off. Given as a moment or as a lifetime it
settles when the key ends, or there is no key; a lifetime too long for the calendar gives no key. A
lifetime of whole seconds is the difference between the seconds of the times of the key. When the
key was asked for outside an inserted second, these times are whole and it lies between them
exactly; for a key of an inserted second only the seconds are compared. -/
theorem expiry_kept (t : Tokenizer) (r : KeyRequest) (hissued : r.issuedAt.OnCalendar) :
    (∀ e, r.expiresAt = some e → e.OnCalendar → t.Settles r e) ∧
    (∀ l e, r.endOf? l = some e → t.Settles (r.expiresIn l) e) ∧
    (∀ l, r.endOf? l = none → ∃ reason, t.issue (r.expiresIn l) = .error (.signing reason)) ∧
    (r.issuedAt.IsRegular → ∀ l,
      (∀ e, r.endOf? l = some e ↔
        l ≤ Lifetime.greatest ∧ e.IsRegular ∧ e.elapsed = r.issuedAt.elapsed + l) ∧
      (r.endOf? l = none ↔ Lifetime.greatest < l ∨
        Instant.latest.elapsed < r.issuedAt.elapsed + l)) ∧
    ∀ n k token, t.issue (r.expiresIn (Lifetime.ofSeconds n)) = .ok (k, token) →
      ∃ e, k.expiresAt = some e ∧ e.seconds - k.issuedAt.seconds = n ∧
        (r.issuedAt.IsRegular → e.nanos = 0 ∧ k.issuedAt.nanos = 0) := by
  refine ⟨?_, ?_, ?_, ?_, ?_⟩
  · exact fun e hexpires he => settles hissued hexpires he
  · exact fun l e hend => settles_expiresIn hissued hend
  · exact fun l hend => refused_of_no_end hend t
  · exact fun hregular l => KeyRequest.endOf?_iff_elapsed hregular l
  · exact fun n k token h => whole_lifetime hissued h

def yearlyRequest : KeyRequest :=
  ⟨"ann", "ann", none, none, some .user, ⟨-1, 750000000⟩, none⟩

theorem yearly_expiry_kept : yearlyRequest.issuedAt.OnCalendar ∧ yearlyRequest.issuedAt.IsRegular ∧
    ∃ k token, (Tokenizer.mk ⟨"key"⟩).issue
        (yearlyRequest.expiresIn (Lifetime.ofSeconds 31536000)) = .ok (k, token) ∧
      (∃ e, k.expiresAt = some e ∧ e.seconds - k.issuedAt.seconds = 31536000 ∧
        e.nanos = 0 ∧ k.issuedAt.nanos = 0) ∧
      (Tokenizer.mk ⟨"key"⟩).parse token ⟨31535999, 0⟩ = .error .expired ∧
      ∃ reason, (Tokenizer.mk ⟨"key"⟩).issue
        (yearlyRequest.expiresIn (Lifetime.ofSeconds 8210266876801)) =
          .error (.signing reason) := by
  have hissued : yearlyRequest.issuedAt.OnCalendar := ⟨by decide, by decide⟩
  have hregular : yearlyRequest.issuedAt.IsRegular := ⟨by decide, by decide⟩
  obtain ⟨-, hsettles, hrefused, -, hwhole⟩ := expiry_kept ⟨⟨"key"⟩⟩ yearlyRequest hissued
  have hend : yearlyRequest.endOf? (Lifetime.ofSeconds 31536000) = some ⟨31535999, 750000000⟩ := by
    decide
  obtain ⟨hcases, haccepted⟩ := hsettles _ _ hend
  obtain ⟨k, token, hissue⟩ := haccepted.2 ⟨by decide, by decide, by decide, by decide, by decide⟩
  obtain ⟨e, he, hseconds, hnanos⟩ := hwhole _ _ _ hissue
  refine ⟨hissued, hregular, k, token, hissue, ⟨e, he, hseconds, hnanos hregular⟩, ?_, ?_⟩
  · rcases hcases with ⟨reason, hrefused⟩ | ⟨k', token', hissue', hends⟩
    · cases hrefused.symm.trans hissue
    · cases hissue'.symm.trans hissue
      exact hends.after _ (by decide)
  · exact hrefused _ (by decide)

end Tokenizer
end AccessControl
