import AccessControl.Proofs.Program.Faults
import Mathlib.Data.List.Chain

/-! # Calls that take time

A run of slow calls under a deadline is told by the calls that it comes to. As long as each of them
ends in time the run goes on as it would without a deadline. A program that stops at a failed call
stops at the first one that does not.
-/
namespace AccessControl

def Conditions.slow (delay : Nat → StoreCall → Option Millis) : Conditions :=
  ⟨fun n c => ⟨delay n c, none, .faithful⟩, none⟩

def Context.expiring (deadline : Millis) : Context := ⟨some deadline, false, none⟩

structure Reached where
  number : Nat
  moment : Millis
  call : StoreCall

namespace Reached

variable (delay : Nat → StoreCall → Option Millis)

/-- It is too late to make the call, or it would end too late. A call that ends with the deadline is
in time. -/
def Late (deadline : Millis) (r : Reached) : Prop :=
  deadline ≤ r.moment ∨ ∀ d, delay r.number r.call = some d → deadline < r.moment + d

def Follows (r next : Reached) : Prop :=
  next.number = r.number + 1 ∧ ∃ d, delay r.number r.call = some d ∧ next.moment = r.moment + d

end Reached

namespace Program

variable {α : Type} {k : Conditions} {ctx : Context} {delay : Nat → StoreCall → Option Millis}
  {deadline : Millis} {w : World} {c : StoreCall} {p : Program α} {made : StoreCall → Prop}

/-- The calls that a run comes to, in order, with the one that it may end at. -/
def reached (k : Conditions) (ctx : Context) : Program α → World → List Reached
  | .done _, _ => []
  | .call c next, w =>
    ⟨w.calls, w.now, c⟩ ::
      match make k ctx c w with
      | (some r, w') => (next r).reached k ctx w'
      | (none, _) => []

theorem head?_reached_call (k : Conditions) (ctx : Context) (next : Result c.Reply → Program α)
    (w : World) :
    ((call c next).reached k ctx w).head? = some ⟨w.calls, w.now, c⟩ := by
  rw [reached]
  rfl

theorem head?_reached {r : Reached} (h : r ∈ (p.reached k ctx w).head?) :
    r.number = w.calls ∧ r.moment = w.now := by
  cases p with
  | done _ => cases h
  | call c next =>
    rw [head?_reached_call] at h
    cases h
    exact ⟨rfl, rfl⟩

/-- A late call ends with the deadline, at once or when the deadline comes. -/
theorem make_late (h : Reached.Late delay deadline ⟨w.calls, w.now, c⟩) :
    ∃ t n, make (.slow delay) (.expiring deadline) c w =
      (some (.error .deadlineExceeded), ⟨w.stores, t, n⟩) ∧
      t ≤ max w.now deadline := by
  by_cases hstart : deadline ≤ w.now
  · have hdone : (Context.expiring deadline).isDone w.now = true := decide_eq_true hstart
    refine ⟨w.now, w.calls, ?_, Nat.le_max_left _ _⟩
    simp only [make, hdone, if_true, Timed.after, Context.ending]
  · have hdone : (Context.expiring deadline).isDone w.now = false := decide_eq_false hstart
    have hend :
        (Context.expiring deadline).ending none w.now (delay w.calls c) = .cut deadline := by
      rw [Context.ending_eq hdone]
      cases hd : delay w.calls c with
      | none => rfl
      | some d =>
        have hslow : deadline < w.now + d := h.resolve_left hstart d hd
        have hstop : (Context.expiring deadline).stop = some deadline := rfl
        simp [hstop, Context.earlier, Nat.min_eq_right (Nat.le_of_lt hslow), Nat.not_le.2 hslow]
    refine ⟨deadline, w.calls + 1, ?_, Nat.le_max_right _ _⟩
    simp only [make, Conditions.slow, hdone, Bool.false_eq_true, if_false, Timed.after, hend]

theorem ending_punctual {d : Millis} (hstart : w.now < deadline) (hend : w.now + d ≤ deadline) :
    (Context.expiring deadline).ending none w.now (some d) = .finished (w.now + d) := by
  have hdone : (Context.expiring deadline).isDone w.now = false :=
    decide_eq_false (Nat.not_le.2 hstart)
  have hstop : (Context.expiring deadline).stop = some deadline := rfl
  rw [Context.ending_eq hdone]
  simp [hstop, Context.earlier, Nat.min_eq_left hend]

/-- A call that ends in time is served as without a deadline. -/
theorem make_punctual (h : ¬Reached.Late delay deadline ⟨w.calls, w.now, c⟩) :
    ∃ d, delay w.calls c = some d ∧ w.now < deadline ∧ w.now + d ≤ deadline ∧
      ∀ ctx, ctx = .expiring deadline ∨ ctx = .background → make (.slow delay) ctx c w =
        (some (w.stores.reply c), ⟨w.stores.after c, w.now + d, w.calls + 1⟩) := by
  rw [Reached.Late, not_or, Nat.not_le] at h
  obtain ⟨hstart, h⟩ := h
  simp only [Classical.not_forall, Nat.not_lt] at h
  obtain ⟨d, hd, hend⟩ := h
  refine ⟨d, hd, hstart, hend, ?_⟩
  intro ctx hctx
  have hfinished : ctx.ending none w.now (some d) = .finished (w.now + d) := by
    rcases hctx with rfl | rfl
    · exact ending_punctual hstart hend
    · rfl
  have hfree : (Conditions.slow delay).obstacle ctx w.calls w.now c = none := by
    simp only [Conditions.obstacle, Conditions.slow, hd, hfinished]
    rfl
  have hmake := make_of_free hfree (Fault.distort_faithful c)
  simp only [Conditions.slow, hd] at hmake
  exact hmake

theorem perform_call_late {next : Result c.Reply → Program α}
    (hfail : ∀ e, c.passesOver e = false → next (.error e) = .done (.error e))
    (h : Reached.Late delay deadline ⟨w.calls, w.now, c⟩) :
    ∃ t n, (call c next).perform (.slow delay) (.expiring deadline) w =
        (some (.error .deadlineExceeded), ⟨w.stores, t, n⟩) ∧ t ≤ max w.now deadline ∧
      (call c next).reached (.slow delay) (.expiring deadline) w = [⟨w.calls, w.now, c⟩] := by
  obtain ⟨t, n, hmake, ht⟩ := make_late h
  have hstop : next (.error .deadlineExceeded) = .done (.error .deadlineExceeded) :=
    hfail _ (by cases c <;> rfl)
  refine ⟨t, n, ?_, ht, ?_⟩
  · simp only [perform, hmake, hstop]
    rfl
  · simp only [reached, hmake, hstop]

/-- A run in which a call is late ends there. -/
theorem Strict.perform_late (h : p.Strict made)
    (hlate : ∃ r ∈ p.reached (.slow delay) (.expiring deadline) w, r.Late delay deadline) :
    let out := p.perform (.slow delay) (.expiring deadline) w
    out.1 = some (.error .deadlineExceeded) ∧ out.2.now ≤ max w.now deadline := by
  -- on the program: the calls before the late one end in time, so the run goes on as far as that
  induction h generalizing w with
  | done r =>
    obtain ⟨r, hr, -⟩ := hlate
    cases hr
  | @call c next _ hfail _ ih =>
    by_cases hfirst : Reached.Late delay deadline ⟨w.calls, w.now, c⟩
    · obtain ⟨t, n, hperform, ht, -⟩ := perform_call_late hfail hfirst
      rw [hperform]
      exact ⟨rfl, ht⟩
    · obtain ⟨d, _, hstart, hend, hmake⟩ := make_punctual hfirst
      have hserved := hmake _ (.inl rfl)
      simp only [reached, hserved] at hlate
      obtain ⟨r, hr, hlate⟩ := hlate
      rcases List.mem_cons.1 hr with rfl | hr
      · exact absurd hlate hfirst
      · obtain ⟨hresult, hnow⟩ := ih _ ⟨r, hr, hlate⟩
        simp only [perform, hserved]
        refine ⟨hresult, Nat.le_trans hnow ?_⟩
        rw [Nat.max_eq_right hend]
        exact Nat.le_max_right _ _

/-- A run in which no call is late is the run without a deadline, and that of the stores. -/
theorem perform_punctual
    (h : ∀ r ∈ p.reached (.slow delay) (.expiring deadline) w, ¬r.Late delay deadline) :
    let out := p.perform (.slow delay) (.expiring deadline) w
    out = p.perform (.slow delay) .background w ∧ out.1 = some (p.run w.stores).1 ∧
      out.2.now ≤ max w.now deadline ∧
      (p.reached (.slow delay) (.expiring deadline) w).map (·.call) = p.calls w.stores := by
  induction p generalizing w with
  | done r => exact ⟨rfl, rfl, Nat.le_max_left _ _, rfl⟩
  | call c next ih =>
    have hfirst : ¬Reached.Late delay deadline ⟨w.calls, w.now, c⟩ :=
      h _ (List.mem_of_mem_head? (head?_reached_call _ _ next w))
    obtain ⟨d, _, hstart, hend, hmake⟩ := make_punctual hfirst
    have hserved := hmake _ (.inl rfl)
    have hunbounded := hmake _ (.inr rfl)
    simp only [reached, hserved] at h
    obtain ⟨hsame, hresult, hnow, hcalls⟩ := ih _ fun r hr => h r (List.mem_cons_of_mem _ hr)
    simp only [perform, reached, calls, run_call, hserved, hunbounded]
    refine ⟨hsame, hresult, Nat.le_trans hnow ?_, congrArg (c :: ·) hcalls⟩
    rw [Nat.max_eq_right hend]
    exact Nat.le_max_right _ _

/-- The clock goes on from call to call, and nothing happens between two calls. -/
theorem Strict.reached_follows (h : p.Strict made) (delay : Nat → StoreCall → Option Millis)
    (deadline : Millis) (w : World) :
    (p.reached (.slow delay) (.expiring deadline) w).IsChain (Reached.Follows delay) ∧
      (p.reached (.slow delay) (.expiring deadline) w).map (·.call) <+: p.calls w.stores := by
  induction h generalizing w with
  | done r => exact ⟨.nil, List.prefix_rfl⟩
  | @call c next _ hfail _ ih =>
    by_cases hfirst : Reached.Late delay deadline ⟨w.calls, w.now, c⟩
    · obtain ⟨_, _, -, -, hreached⟩ := perform_call_late hfail hfirst
      rw [hreached]
      exact ⟨.singleton _, (List.prefix_cons_inj c).2 List.nil_prefix⟩
    · obtain ⟨d, hd, _, _, hmake⟩ := make_punctual hfirst
      obtain ⟨hchain, hcalls⟩ := ih (w.stores.reply c) ⟨w.stores.after c, w.now + d, w.calls + 1⟩
      simp only [reached, hmake _ (.inl rfl), calls, List.map_cons]
      refine ⟨List.isChain_cons.2 ⟨?_, hchain⟩, (List.prefix_cons_inj c).2 hcalls⟩
      intro r hr
      obtain ⟨hnumber, hmoment⟩ := head?_reached hr
      exact ⟨hnumber, d, hd, hmoment⟩

end Program
end AccessControl
