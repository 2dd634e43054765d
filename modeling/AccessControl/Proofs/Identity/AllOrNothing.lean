import AccessControl.Proofs.Identity.Runs
import AccessControl.Proofs.Program.Polling

/-! # All or nothing

Whoever is told that a call did not come to an end can rely on it that nothing has happened, and so
can whoever is told that an API key was not issued or that a key was not revoked.
-/
namespace AccessControl

namespace Program

variable {α : Type} {p : Program α} {c : StoreCall}

/-- A program of at most one call, which fails when its call does and only then. -/
inductive Atomic : Program α → Prop
  | done (r : Result α) : Atomic (.done r)
  | call {c : StoreCall} {next : Result c.Reply → Program α}
      (hfail : ∀ e, next (.error e) = .done (.error e))
    (hnext : ∀ reply, ∃ a, next (.ok reply) = .done (.ok a)) : Atomic (.call c next)

/-- Whatever the conditions are, what has no success has no effect. -/
theorem Atomic.perform_stores (h : p.Atomic) (k : Conditions) (ctx : Context) (w : World)
    (hfailed : ∀ a, (p.perform k ctx w).1 ≠ some (.ok a)) :
    (p.perform k ctx w).2.stores = w.stores := by
  cases h with
  | done r => rfl
  | @call c next hfail hnext =>
    have hmake := make_cases k ctx c w
    simp only [perform] at hfailed ⊢
    generalize make k ctx c w = out at hmake hfailed
    obtain ⟨answer, w'⟩ := out
    rcases hmake with ⟨hstores, hno⟩ | ⟨reply, st, -, -, rfl⟩
    · rcases answer with _ | (e | reply)
      · exact hstores
      · simp only [hfail]
        exact hstores
      · exact absurd rfl (hno reply)
    · obtain ⟨a, ha⟩ := hnext (Fault.distort (k.schedule w.calls c).distortion c reply)
      simp only [ha] at hfailed
      exact absurd rfl (hfailed a)

/-- Whenever the call is polled, what has no success has no effect. -/
theorem Atomic.polled_stores (h : p.Atomic) {s : Stores} (hnamed : s.groups.Named)
    (deadline : Option Millis) (visits : List Visit)
    (hfailed : ∀ a, (p.polled deadline visits s).1 ≠ some (.ok a)) :
    (p.polled deadline visits s).2 = s := by
  cases h with
  | done r => rfl
  | @call c next hfail hnext =>
    cases visits with
    | nil => rfl
    | cons v rest =>
      simp only [polled] at hfailed ⊢
      rcases v.make_cases deadline c.inPlace s with hmake | hmake | hmake
      · simp only [hmake]
      · simp only [hmake, hfail]
        rfl
      · rw [StoreCall.inPlace_eq hnamed] at hmake
        simp only [hmake] at hfailed ⊢
        cases hreply : s.reply c with
        | error e =>
          simp only [hfail]
          exact Stores.after_of_refused hreply
        | ok reply =>
          obtain ⟨a, ha⟩ := hnext reply
          simp only [hreply, ha] at hfailed
          exact absurd rfl (hfailed a)

end Program

namespace IdentityService

theorem andThen_atomic {α β : Type} {r : Result α} {f : α → Program β} (h : ∀ a, (f a).Atomic) :
    (andThen r f).Atomic := by
  cases r with
  | error e => exact .done _
  | ok a => exact h a

theorem issueApiKey_atomic (s : IdentityService) (token keyId : String) (lifetime : Option Lifetime)
    (now issuedAt : Instant) : (s.issueApiKey token keyId lifetime now issuedAt).Atomic :=
  andThen_atomic fun _ => andThen_atomic fun _ => .call (fun _ => rfl) fun _ => ⟨_, rfl⟩

theorem revokeKey_atomic (s : IdentityService) (token keyId : String) (now : Instant) :
    (s.revokeKey token keyId now).Atomic :=
  andThen_atomic fun _ => .call (fun _ => rfl) fun _ => ⟨_, rfl⟩

end IdentityService

/-- After any calls in place, whatever a call under a context finds when it is made and whenever it
is polled after that: as long as there is no answer the stores are as they were, and they are so too
when the answer tells of the deadline. Every other answer is that of the call itself, which leaves
the stores as it does by itself. There is no answer only as long as nothing has happened; and a call
that comes too late is never started, whatever it would do. So an API key that is not issued is not
on record, and a key that is not revoked is as it was. A run beside a clock is such a run by
polls. -/
theorem call_is_whole_or_nothing (calls : List StoreCall) (deadline : Option Millis) :
    let st := Stores.empty.inPlaceAll calls
    (∀ (c : StoreCall) (v : Visit),
      let out := v.make deadline (.call c.inPlace) st
      (out = (none, st) ∨ out = (some (.error .deadlineExceeded), st) ∨
        out = (some (c.inPlace st).1, (c.inPlace st).2)) ∧
      (c.inPlace st).1 ≠ .error .deadlineExceeded ∧
      (out.1 = none ↔ v.refused deadline = false ∧
        ∀ poll ∈ v.polls, poll.settles deadline = false)) ∧
    (∀ v : Visit, v.entry.cancelled = true ∨ (∃ d, deadline = some d ∧ d ≤ v.entry.now) →
      ∀ (α : Type) (p : Polled Stores α), v.make deadline p st =
        (some (.error .deadlineExceeded), st)) ∧
    (∀ (s : IdentityService) (token keyId : String) (lifetime : Option Lifetime)
      (now issuedAt : Instant) (visits : List Visit),
      let issued := (s.issueApiKey token keyId lifetime now issuedAt).polled deadline visits st
      let revoked := (s.revokeKey token keyId now).polled deadline visits st
      ((∀ a, issued.1 ≠ some (.ok a)) → issued.2 = st) ∧
        (revoked.1 ≠ some (.ok ()) → revoked.2 = st)) ∧
    ∀ (moment : Millis) (started : Nat) (ctx : Context),
      let w : World := ⟨st, moment, started⟩
      (∀ (s : IdentityService) (token keyId : String) (lifetime : Option Lifetime)
        (now issuedAt : Instant) (k : Conditions),
        let issued := (s.issueApiKey token keyId lifetime now issuedAt).perform k ctx w
        let revoked := (s.revokeKey token keyId now).perform k ctx w
        ((∀ a, issued.1 ≠ some (.ok a)) → issued.2.stores = st) ∧
          (revoked.1 ≠ some (.ok ()) → revoked.2.stores = st)) ∧
      ∀ (α : Type) (p : Program α) (delay : Nat → StoreCall → Option Millis),
        p.polled ctx.deadline (p.visits delay ctx w) st =
          ((p.perform (.slow delay) ctx w).1, (p.perform (.slow delay) ctx w).2.stores) := by
  intro st
  have hrun : st = Stores.empty.afterAll calls := Stores.inPlaceAll_eq calls
  have hsound : st.Sound := hrun ▸ Stores.sound_afterAll calls
  have hnamed : st.groups.Named := hsound.groups.toNamed
  refine ⟨?_, ?_, ?_, ?_⟩
  · intro c v
    refine ⟨v.make_cases deadline c.inPlace st, ?_, ?_⟩
    · rw [StoreCall.inPlace_eq hnamed]
      intro h
      cases st.refuses_reply c _ h
    · exact v.make_eq_none_iff deadline c.inPlace st
  · intro v hv α p
    refine Visit.make_of_refused ?_ p st
    rcases hv with hcancelled | ⟨d, rfl, hd⟩
    · simp [Visit.refused, hcancelled]
    · simp [Visit.refused, hd]
  · intro s token keyId lifetime now issuedAt visits
    have hissue := s.issueApiKey_atomic token keyId lifetime now issuedAt
    refine ⟨hissue.polled_stores hnamed deadline visits, fun h => ?_⟩
    exact (s.revokeKey_atomic token keyId now).polled_stores hnamed deadline visits fun _ => h
  · intro moment started ctx w
    refine ⟨?_, fun α p delay => Program.perform_slow_eq_polled (w := w) hsound delay ctx p⟩
    intro s token keyId lifetime now issuedAt k
    have hissue := s.issueApiKey_atomic token keyId lifetime now issuedAt
    refine ⟨hissue.perform_stores k ctx w, fun h => ?_⟩
    exact (s.revokeKey_atomic token keyId now).perform_stores k ctx w fun _ => h

end AccessControl
