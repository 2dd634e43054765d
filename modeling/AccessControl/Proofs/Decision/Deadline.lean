import AccessControl.Proofs.Decision.Authorize
import AccessControl.Proofs.Program.Traces

/-! # How long a decision takes

A decision is bounded by one deadline: that of the caller, however far away it is, or else the limit
of the engine from the moment at which the decision starts.
-/
namespace AccessControl.Engine

open AccessRequest

variable {e : Engine} {own : Option Millis} {now deadline : Millis}

theorem effective_eq_expiring
    (h : own.orElse (fun _ => e.decisionTimeout.map (now + ·)) = some deadline) :
    e.effective ⟨own, false, none⟩ now = .expiring deadline := by
  cases own with
  | some d =>
    cases h
    rfl
  | none =>
    obtain ⟨limit, hlimit, rfl⟩ := Option.map_eq_some_iff.1 h
    simp only [effective, hlimit]
    rfl

/-- However long the calls take, a decision comes in time or not at all. The answer is never later
than the deadline, or than the start when it is too late already. It tells of the deadline exactly
when one of the calls that the decision comes to is late; and otherwise the run is the one without a
deadline. -/
theorem authorize_in_time (calls : List StoreCall) (now : Millis) (started : Nat) (e : Engine)
    (own : Option Millis) (delay : Nat → StoreCall → Option Millis) (r : AccessRequest)
    (deadline : Millis)
    (hdeadline : own.orElse (fun _ => e.decisionTimeout.map (now + ·)) = some deadline) :
    let w : World := ⟨Stores.empty.afterAll calls, now, started⟩
    let ctx : Context := ⟨own, false, none⟩
    let out := e.authorize (.slow delay) ctx r w
    let reached := r.decision.reached (.slow delay) (e.effective ctx now) w
    out.1 ≠ none ∧ out.2.now ≤ max now deadline ∧
      (∀ d, out.1 = some (.ok d) → out.2.now ≤ deadline) ∧
    (out.1 = some (.error .deadlineExceeded) ↔ ∃ c ∈ reached, c.Late delay deadline) ∧
    ((∀ c ∈ reached, ¬c.Late delay deadline) →
      out = (Engine.mk none).authorize (.slow delay) .background r w ∧
        out.1 = some (.ok (r.firstMatch w.stores)) ∧
      reached.map (·.call) = r.decision.calls w.stores) ∧
    reached.head? = some ⟨started, now, .policies r.subject (some r.object)⟩ ∧
    reached.IsChain (Reached.Follows delay) ∧ reached.map (·.call) <+: r.decision.calls w.stores ∧
    out.2.stores = w.stores := by
  intro w ctx out reached
  have heffective : e.effective ctx now = .expiring deadline := effective_eq_expiring hdeadline
  have hsound : w.stores.Sound := Stores.sound_afterAll calls
  have hout : out = r.decision.perform (.slow delay) (.expiring deadline) w := by
    rw [← heffective]; rfl
  have hreached : reached = r.decision.reached (.slow delay) (.expiring deadline) w := by
    rw [← heffective]
  have hhead : reached.head? = some ⟨started, now, .policies r.subject (some r.object)⟩ := by
    obtain ⟨next, hnext⟩ : ∃ next, r.decision = .call (.policies r.subject (some r.object)) next :=
      ⟨_, rfl⟩
    rw [hreached, hnext]
    exact Program.head?_reached_call _ _ next w
  obtain ⟨hfollows, hprefix⟩ := r.decision_strict.reached_follows delay deadline w
  have hstores : out.2.stores = w.stores := e.authorize_stores (.slow delay) ctx r w
  rw [← hreached] at hfollows hprefix
  by_cases hlate : ∃ c ∈ reached, c.Late delay deadline
  · have hlast := r.decision_strict.perform_late (hreached ▸ hlate)
    rw [← hout] at hlast
    obtain ⟨hresult, hnow⟩ := hlast
    refine ⟨?_, hnow, ?_, ⟨fun _ => hlate, fun _ => hresult⟩, ?_, hhead, hfollows, hprefix, hstores⟩
    · rw [hresult]
      exact nofun
    · intro d hd
      cases hresult.symm.trans hd
    · intro hpunctual
      obtain ⟨c, hc, hclate⟩ := hlate
      exact absurd hclate (hpunctual c hc)
  · have hpunctual : ∀ c ∈ reached, ¬c.Late delay deadline :=
      fun c hc hclate => hlate ⟨c, hc, hclate⟩
    have hrun := Program.perform_punctual (hreached ▸ hpunctual)
    rw [← hout, ← hreached, r.run_decision hsound] at hrun
    obtain ⟨hsame, hresult, hnow, hcalls⟩ := hrun
    have hstart : now < deadline := by
      have hfirst := hpunctual _ (List.mem_of_mem_head? hhead)
      exact Nat.lt_of_not_le fun h => hfirst (.inl h)
    refine ⟨?_, hnow, ?_, ⟨?_, fun h => absurd h hlate⟩, fun _ => ⟨hsame, hresult, hcalls⟩, hhead,
      hfollows, hprefix, hstores⟩
    · rw [hresult]
      exact nofun
    · intro _ _
      rwa [Nat.max_eq_right (Nat.le_of_lt hstart)] at hnow
    · intro h
      cases hresult.symm.trans h

/-- The second of three calls that take forty each is the last in time, and the engine leaves a
hundred. -/
theorem authorize_sample_in_time :
    (none : Option Millis).orElse (fun _ => (Engine.mk (some 100)).decisionTimeout.map (5 + ·)) =
      some 105 ∧
    ((Engine.mk (some 100)).authorize (.slow fun _ _ => some 40) ⟨none, false, none⟩ sampleRequest
      ⟨Stores.empty.afterAll sampleCalls, 5, 0⟩).1 = some (.error .deadlineExceeded) := by
  have hdeadline :
      (none : Option Millis).orElse (fun _ => (Engine.mk (some 100)).decisionTimeout.map (5 + ·)) =
      some 105 := rfl
  obtain ⟨-, -, -, htimeout, -⟩ :=
    authorize_in_time sampleCalls 5 0 ⟨some 100⟩ none (fun _ _ => some 40) sampleRequest
    105 hdeadline
  refine ⟨hdeadline, htimeout.2 ⟨⟨2, 85, .ancestors "ops"⟩, ?_, .inr ?_⟩⟩
  · exact List.mem_of_getElem? (i := 2) rfl
  · intro d hd
    cases hd
    decide

end AccessControl.Engine
