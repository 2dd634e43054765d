import AccessControl.Proofs.Tokenizer.Acceptance

/-! # How a token ages

Only the last check of a token looks at the clock, and only at the expiry of a key that has passed
all the others. So every text has one fate: it is refused for one reason at every moment, or it
gives one key at every moment, or it gives one key before the expiry of that key and has expired
ever after.
-/
namespace AccessControl.Tokenizer
open Token (Bears)

/-- What becomes of a text that is presented again and again. -/
inductive Fate where
  | refused (e : AuthError)
  | lasting (k : Key)
  | passing (k : Key) (expiry : Instant)

namespace Fate

variable {f g : Fate} {now : Instant}

def answer : Fate → Instant → Result Key
  | refused e, _ => .error e
  | lasting k, _ => .ok k
  | passing k expiry, now => if now.IsBefore expiry then .ok k else .error .expired

/-- A refusal for good is not for age, and a key passes at its own expiry. -/
def Fits : Fate → Prop
  | refused e => e ≠ .expired
  | lasting k => k.expiresAt = none
  | passing k expiry => k.expiresAt = some expiry ∧ expiry.IsWhole

theorem answer_before {k : Key} {expiry : Instant} (h : now.IsBefore expiry) :
    (passing k expiry).answer now = .ok k := if_pos h

theorem answer_expiry (k : Key) (expiry : Instant) :
    (passing k expiry).answer expiry = .error .expired :=
  if_neg expiry.not_isBefore_self

theorem answer_eq_expired (hf : f.Fits) (h : f.answer now = .error .expired) :
    ∃ k expiry, f = passing k expiry ∧ ¬now.IsBefore expiry := by
  cases f with
  | refused e => exact absurd (Except.error.inj h) hf
  | lasting k => cases h
  | passing k expiry =>
    refine ⟨k, expiry, rfl, ?_⟩
    intro hbefore
    rw [answer_before hbefore] at h
    cases h

def Alike (f g : Fate) : Prop := f = g ∨ ∃ k k' a b, f = passing k a ∧ g = passing k' b

/-- Fates of different kinds show on the calendar, at the latest when a key passes. -/
theorem alike_of_answer (hf : f.Fits) (hg : g.Fits)
    (h : ∀ now : Instant, now.OnCalendar → f.answer now = g.answer now) : f.Alike g := by
  have hzero : (Instant.mk 0 0).OnCalendar := ⟨by decide, by decide⟩
  have hat : ∀ {k expiry}, f = passing k expiry ∨ g = passing k expiry →
      f.answer expiry = .error .expired ∧ g.answer expiry = .error .expired := by
    rintro k expiry (rfl | rfl)
    · exact ⟨answer_expiry k expiry, (h expiry hf.2.onCalendar).symm.trans (answer_expiry k expiry)⟩
    · exact ⟨(h expiry hg.2.onCalendar).trans (answer_expiry k expiry), answer_expiry k expiry⟩
  cases f with
  | refused e =>
    cases g with
    | refused e' =>
      have he : e = e' := Except.error.inj (h ⟨0, 0⟩ hzero)
      exact .inl (by rw [he])
    | lasting k => cases h ⟨0, 0⟩ hzero
    | passing k expiry => exact absurd (Except.error.inj (hat (.inr rfl)).1) hf
  | lasting k =>
    cases g with
    | refused e' => cases h ⟨0, 0⟩ hzero
    | lasting k' =>
      have hk : k = k' := Except.ok.inj (h ⟨0, 0⟩ hzero)
      exact .inl (by rw [hk])
    | passing k' expiry => cases (hat (.inr rfl)).1
  | passing k expiry =>
    cases g with
    | refused e' => exact absurd (Except.error.inj (hat (.inl rfl)).2) hg
    | lasting k' => cases (hat (.inl rfl)).2
    | passing k' expiry' => exact .inr ⟨k, k', expiry, expiry', rfl, rfl⟩

/-- Fates that answer alike at every moment are the same: before both expiries both keys are seen.
-/
theorem eq_of_answer (hf : f.Fits) (hg : g.Fits) (h : ∀ now, f.answer now = g.answer now) :
    f = g := by
  rcases alike_of_answer hf hg fun now _ => h now with hsame | ⟨k, k', expiry, expiry', rfl, rfl⟩
  · exact hsame
  · obtain ⟨now, hbefore, hbefore'⟩ := Instant.exists_isBefore expiry expiry'
    have hanswer := h now
    rw [answer_before hbefore, answer_before hbefore'] at hanswer
    obtain rfl := Except.ok.inj hanswer
    have hexpiry := hf.1.symm.trans hg.1
    rw [Option.some.inj hexpiry]

end Fate

variable {t : Tokenizer} {token : String} {now : Instant} {h c s : List Char}

/-- Every text has a fate, which depends on the secret and the text but on no moment. -/
theorem exists_fate (t : Tokenizer) (token : String) :
    ∃ f : Fate, f.Fits ∧ ∀ now, t.parse token now = f.answer now := by
  cases hsecret : t.secret.isBlank with
  | true => exact ⟨.refused (.signing _), nofun, fun now => parse_of_blank hsecret⟩
  | false =>
    cases hread : read t.secret.octets token.toList with
    | error e =>
      obtain ⟨reason, rfl⟩ := blamesToken_read _ _ e hread
      refine ⟨.refused (.malformedToken reason), nofun, fun now => ?_⟩
      rw [parse_of_not_blank hsecret, hread]
      rfl
    | ok k =>
      have hparse := parse_of_read hsecret hread
      cases hexpires : k.expiresAt with
      | none =>
        refine ⟨.lasting k, hexpires, fun now => ?_⟩
        have hlive : k.isExpiredAt now = false := by simp [Key.isExpiredAt, hexpires]
        simp [hparse, hlive, Fate.answer]
      | some expiry =>
        obtain ⟨-, -, -, -, -, -, fields, -, hbears⟩ := bears_of_read hread
        have hwhole := (hbears.representable.expiresAt expiry hexpires).1
        refine ⟨.passing k expiry, ⟨hexpires, hwhole⟩, fun now => ?_⟩
        have hlive : k.isExpiredAt now = false ↔ now.IsBefore expiry := by
          simp [Key.isExpiredAt_eq_false_iff, hexpires]
        by_cases hbefore : now.IsBefore expiry
        · simp [hparse, hlive.2 hbefore, Fate.answer, hbefore]
        · have hover : k.isExpiredAt now = true := by simpa using mt hlive.1 hbefore
          simp [hparse, hover, Fate.answer, hbefore]

/-- A document that says nothing of an expiry, or that there is none. -/
def NamesNoExpiry (fields : List (String × Value)) : Prop :=
  Value.lookup "exp" fields = none ∨ Value.lookup "exp" fields = some .null ∨
    Value.lookup "exp" fields = some (.int 0)

/-- Only a token that would be accepted but for its age is called expired. -/
theorem read_of_expired (hexpired : t.parse token now = .error .expired) :
    ∃ k e, read t.secret.octets token.toList = .ok k ∧ k.expiresAt = some e ∧ ¬now.IsBefore e := by
  cases hsecret : t.secret.isBlank with
  | true =>
    rw [parse_of_blank hsecret] at hexpired
    cases hexpired
  | false =>
    cases hread : read t.secret.octets token.toList with
    | error e =>
      obtain ⟨reason, rfl⟩ := blamesToken_read _ _ e hread
      rw [parse_of_not_blank hsecret, hread] at hexpired
      cases hexpired
    | ok k =>
      have hover : k.isExpiredAt now = true := by
        by_contra hlive
        rw [parse_of_read hsecret hread, if_neg hlive] at hexpired
        cases hexpired
      have hnot : ¬∀ e, k.expiresAt = some e → now.IsBefore e := by
        simp [← Key.isExpiredAt_eq_false_iff, hover]
      push Not at hnot
      obtain ⟨e, he, hbefore⟩ := hnot
      exact ⟨k, e, rfl, he, hbefore⟩

theorem not_expired_of_namesNoExpiry {fields : List (String × Value)}
    (htoken : token.toList = joined h c s) (hc : '.' ∉ c) (hs : '.' ∉ s)
    (hholds : Holds c (.object fields)) (hnone : NamesNoExpiry fields) :
    t.parse token now ≠ .error .expired := by
  intro hexpired
  obtain ⟨k, e, hread, he, -⟩ := read_of_expired hexpired
  obtain ⟨h', c', htoken', -, hc', -, fields', hholds', hbears⟩ := bears_of_read hread
  have hsplit := split_eq_some_iff.2 ⟨htoken, hc, hs⟩
  rw [split_eq_some_iff.2 ⟨htoken', hc', dot_not_mem_signature _ _⟩] at hsplit
  cases hsplit
  cases hholds.unique hholds'
  have hne := (hbears.representable.expiresAt e he).2
  have hexp := hbears.expiresAt
  rw [he] at hexp
  rcases hexp with hexp | ⟨-, hexp⟩
  · change Value.lookup "exp" fields = some (.int e.seconds) at hexp
    simp [NamesNoExpiry, hexp, hne] at hnone
  · cases hexp

/-- Every text has one fate, and its kind shows on the calendar. What has expired was signed, bears
a key and will not come back, and no expiry means none. -/
theorem one_fate (t : Tokenizer) (token : String) :
    (∃! f : Fate, f.Fits ∧ ∀ now, t.parse token now = f.answer now) ∧
    (∀ f g : Fate, f.Fits → g.Fits →
      (∀ now : Instant, now.OnCalendar → t.parse token now = f.answer now) →
      (∀ now : Instant, now.OnCalendar → t.parse token now = g.answer now) → f.Alike g) ∧
    (∀ now, t.parse token now = .error .expired → ∃ h c,
      token.toList = joined h c (signature t.secret.octets (h ++ '.' :: c)) ∧
      (∃ header, Holds h header ∧ Token.algorithmOf header = some Token.signingAlgorithm) ∧
      ∃ fields k e, Holds c (.object fields) ∧ Bears fields k ∧ k.expiresAt = some e ∧
        ¬now.IsBefore e) ∧
    (∀ now later, t.parse token now = .error .expired → ¬later.IsBefore now →
      t.parse token later = .error .expired) ∧
    ∀ h c s fields, token.toList = joined h c s → '.' ∉ c → '.' ∉ s → Holds c (.object fields) →
      NamesNoExpiry fields → ∀ now, t.parse token now ≠ .error .expired := by
  obtain ⟨f, hfits, hanswer⟩ := exists_fate t token
  refine ⟨⟨f, ⟨hfits, hanswer⟩, ?_⟩, ?_, ?_, ?_, ?_⟩
  · rintro g ⟨hgfits, hganswer⟩
    exact Fate.eq_of_answer hgfits hfits fun now => (hganswer now).symm.trans (hanswer now)
  · intro f g hf hg hfanswer hganswer
    exact Fate.alike_of_answer hf hg fun now hnow =>
      (hfanswer now hnow).symm.trans (hganswer now hnow)
  · intro now hexpired
    obtain ⟨k, e, hread, he, hover⟩ := read_of_expired hexpired
    obtain ⟨h, c, htoken, -, -, hheader, fields, hholds, hbears⟩ := bears_of_read hread
    exact ⟨h, c, htoken, hheader, fields, k, e, hholds, hbears, he, hover⟩
  · intro now later hexpired hlater
    rw [hanswer] at hexpired
    obtain ⟨k, expiry, rfl, hover⟩ := Fate.answer_eq_expired hfits hexpired
    rw [hanswer]
    exact if_neg (Instant.not_isBefore_trans hlater hover)
  · intro h c s fields htoken hc hs hholds hnone now
    exact not_expired_of_namesNoExpiry htoken hc hs hholds hnone

end AccessControl.Tokenizer
