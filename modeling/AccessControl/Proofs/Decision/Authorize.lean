import AccessControl.Proofs.Decision.FirstMatch
import AccessControl.Proofs.Program.Relations

/-! # What an engine answers

Without faults an engine answers with the first match. Whatever a schedule of faults and a context
do, it answers with the same decision, or with what stood in the way of the first call that was not
served.
-/
namespace AccessControl

theorem GroupStore.assignedTo_sorted (s : GroupStore) (member : String) :
    (s.assignedTo member).Pairwise (· < ·) := by
  have hkeys := s.groups.keys_sorted.filter fun id => member ∈ s.membersOf id
  exact hkeys.imp Dict.lt_of_before

namespace Engine

/-- An engine with some time, or without a limit, is not late from the start under a context without
a deadline. -/
theorem isDone_effective {e : Engine} (hlimit : e.decisionTimeout ≠ some 0) (now : Millis) :
    (e.effective .background now).isDone now = false := by
  cases htimeout : e.decisionTimeout with
  | none =>
    have heffective : e.effective .background now = .background := by
      simp only [effective, htimeout]; rfl
    rw [heffective]
    rfl
  | some limit =>
    have hpos : 0 < limit :=
      Nat.pos_of_ne_zero fun hzero => hlimit (htimeout.trans (congrArg some hzero))
    have heffective : e.effective .background now = .withTimeout now limit := by
      simp only [effective, htimeout, Context.background]
      rfl
    rw [heffective]
    exact decide_eq_false (Nat.not_le.2 (Nat.lt_add_of_pos_right hpos))

/-- An engine that leaves no time refuses the first call. -/
theorem authorize_calm_zero {e : Engine} (hlimit : e.decisionTimeout = some 0) (r : AccessRequest)
    (w : World) :
    e.authorize .calm .background r w = (some (.error .deadlineExceeded), w) := by
  have heffective : e.effective .background w.now = .withTimeout w.now 0 := by
    simp only [effective, hlimit, Context.background]
    rfl
  have hdone : (e.effective .background w.now).isDone w.now = true := by
    rw [heffective]
    exact decide_eq_true (Nat.le_refl w.now)
  exact Program.perform_of_done hdone r.decision

/-- Without faults an engine that has time answers with the first match, and changes nothing. -/
theorem authorize_calm {e : Engine} (hlimit : e.decisionTimeout ≠ some 0) {w : World}
    (h : w.stores.Sound) (r : AccessRequest) :
    (e.authorize .calm .background r w).1 = some (.ok (r.firstMatch w.stores)) ∧
      (e.authorize .calm .background r w).2.stores = w.stores := by
  have hperform := Program.perform_calm (isDone_effective hlimit w.now) r.decision
  rw [r.run_decision h] at hperform
  exact hperform

/-- After every run of the stores, an engine answers any request with the first match: the one
policy that gives the subject the right; or the first that gives it to an inherited group; or none.
Only an engine with a limit of zero is left out: it has no time for any call, and
`authorize_calm_zero` says that it answers with the deadline. -/
theorem authorize_eq_firstMatch (calls : List StoreCall) (now : Millis) (started : Nat) (e : Engine)
    (r : AccessRequest) (hlimit : e.decisionTimeout ≠ some 0) :
    let s := Stores.empty.afterAll calls
    let answer := e.authorize .calm .background r ⟨s, now, started⟩
    answer.1 = some (.ok (r.firstMatch s)) ∧ answer.2.stores = s ∧
    (∀ holder id, s.policies.granting? (r.right holder) = some id ↔
      ∃ p, s.policies.policies.get? id = some p ∧ p.right = r.right holder) ∧
    (s.groups.assignedTo r.subject.id).Pairwise (· < ·) ∧
    (∀ g, s.groups.above g = (s.groups.parentOf g).elim [] fun p => p :: s.groups.above p) ∧
    ((r.firstMatch s).isAllowed = true ↔
      r.Holds s.policies r.subject ∨
      ∃ g, s.groups.Inherits r.subject g ∧ r.Holds s.policies (Group.principal g)) := by
  intro s answer
  have hsound : s.Sound := Stores.sound_afterAll calls
  have hcalm : answer.1 = some (.ok (r.firstMatch s)) ∧ answer.2.stores = s :=
    authorize_calm hlimit hsound r
  exact ⟨hcalm.1, hcalm.2, fun _ _ => hsound.policies.granting?_eq_some_iff,
    s.groups.assignedTo_sorted _, hsound.groups.forest.above_eq, r.firstMatch_isAllowed_iff hsound⟩

def sampleCalls : List StoreCall :=
  [.saveGroup ⟨"staff", "root", none, "Staff", "", [], ⟨0, 0⟩, ⟨0, 0⟩⟩,
    .saveGroup ⟨"ops", "root", some "staff", "Operations", "", [], ⟨0, 0⟩, ⟨0, 0⟩⟩,
    .assign "ann" "ops",
      .savePolicy ⟨"p1", ⟨Group.principal "staff", ⟨"channel", "news"⟩, "publish"⟩⟩]

def sampleRequest : AccessRequest := ⟨⟨.user, "ann"⟩, ⟨"channel", "news"⟩, "publish"⟩

theorem authorize_sample : (Engine.mk none).decisionTimeout ≠ some 0 ∧
    ((Engine.mk none).authorize .calm .background sampleRequest
      ⟨Stores.empty.afterAll sampleCalls, 0, 0⟩).1 =
      some (.ok (.allow (.viaGroup "staff" "p1"))) := by
  have hlimit : (Engine.mk none).decisionTimeout ≠ some 0 := nofun
  have hmatch : sampleRequest.firstMatch (Stores.empty.afterAll sampleCalls) =
      .allow (.viaGroup "staff" "p1") := by decide
  have hanswer := (authorize_eq_firstMatch sampleCalls 0 0 ⟨none⟩ sampleRequest hlimit).1
  rw [hmatch] at hanswer
  exact ⟨hlimit, hanswer⟩

theorem authorize_stores (e : Engine) (k : Conditions) (ctx : Context) (r : AccessRequest)
    (w : World) :
    (e.authorize k ctx r w).2.stores = w.stores :=
  r.decision_strict.makes.perform_stores k (e.effective ctx w.now) w

theorem authorize_cases (e : Engine) {k : Conditions} (ctx : Context) (r : AccessRequest)
    {w : World} (hk : ∀ n c, (k.schedule n c).Honest c) (h : w.stores.Sound) :
    (e.authorize k ctx r w).1 =
      match k.blocked (e.effective ctx w.now) w.calls w.now (r.decision.calls w.stores) with
      | none => some (.ok (r.firstMatch w.stores))
      | some (_, o) => o.answer := by
  cases hblocked : k.blocked (e.effective ctx w.now) w.calls w.now (r.decision.calls w.stores) with
  | none =>
    have hresult := (Program.perform_of_free (fun n c _ => hk n c) hblocked).1
    rw [r.run_decision h] at hresult
    exact hresult
  | some found => exact (r.decision_strict.perform_of_blocked (fun n c _ => hk n c) hblocked).1

/-- A fault or a deadline never becomes a decision. A request is decided as it would be with
neither, or it ends with what stood in the way of the first call that was not served: the failure of
that call, or a context that was over. Nothing comes back only when a call takes forever and nothing
ends the context. -/
theorem authorize_of_faults (calls : List StoreCall) (now : Millis) (started : Nat) (e : Engine)
    (k : Conditions) (ctx : Context) (r : AccessRequest)
    (hfaithful : ∀ n c, (k.schedule n c).distortion = .faithful)
    (hmissing : ∀ n g what, (k.schedule n (.ancestors g)).failure ≠ some (.notFound what)) :
    let w : World := ⟨Stores.empty.afterAll calls, now, started⟩
    let limited := e.effective ctx now
    ∃ d, ((Engine.mk none).authorize .calm .background r w).1 = some (.ok d) ∧
      (e.authorize k ctx r w).2.stores = w.stores ∧
      ((e.authorize k ctx r w).1 =
        match k.blocked limited started now (r.decision.calls w.stores) with
        | none => some (.ok d)
        | some (_, o) => o.answer) ∧
      (k.horizon = none → (limited.stop ≠ none ∨ ∀ n c, (k.schedule n c).wait ≠ none) →
        (e.authorize k ctx r w).1 ≠ none) := by
  intro w limited
  have hsound : w.stores.Sound := Stores.sound_afterAll calls
  have hhonest : ∀ n c, (k.schedule n c).Honest c := by
    intro n c
    refine ⟨?_, ?_⟩
    · rw [hfaithful n c]
      exact Fault.distort_faithful c
    · intro e he
      cases c with
      | ancestors g =>
        cases e with
        | notFound what => exact absurd he (hmissing n g what)
        | _ => rfl
      | _ => rfl
  have hnone : (Engine.mk none).decisionTimeout ≠ some 0 := nofun
  have hcalm := authorize_calm hnone hsound r
  have hresult := authorize_cases e ctx r hhonest hsound
  refine ⟨r.firstMatch w.stores, hcalm.1, e.authorize_stores k ctx r w, hresult, ?_⟩
  intro hhorizon hends
  rw [hresult]
  cases hblocked : k.blocked limited started now (r.decision.calls w.stores) with
  | none => exact nofun
  | some found => exact Conditions.answer_ne_none hhorizon hblocked hends

def sampleFaults : Conditions :=
  ⟨fun n _ => if n = 4 then ⟨some 30, some (.storeUnavailable "down"), .faithful⟩ else .none, none⟩

theorem authorize_sample_of_faults : (∀ n c, (sampleFaults.schedule n c).distortion = .faithful) ∧
    (∀ n g what, (sampleFaults.schedule n (.ancestors g)).failure ≠ some (.notFound what)) ∧
    ((Engine.mk (some 100)).authorize sampleFaults .background sampleRequest
      ⟨Stores.empty.afterAll sampleCalls, 0, 0⟩).1 = some (.error (.storeUnavailable "down")) := by
  have hfaithful : ∀ n c, (sampleFaults.schedule n c).distortion = .faithful := by
    intro n c
    by_cases hn : n = 4 <;> simp [sampleFaults, hn, Fault.none]
  have hmissing :
      ∀ n g what, (sampleFaults.schedule n (.ancestors g)).failure ≠ some (.notFound what) := by
    intro n g what
    by_cases hn : n = 4 <;> simp [sampleFaults, hn, Fault.none]
  obtain ⟨d, _, _, hanswer, _⟩ :=
    authorize_of_faults sampleCalls 0 0
      ⟨some 100⟩ sampleFaults .background sampleRequest hfaithful hmissing
  refine ⟨hfaithful, hmissing, hanswer.trans ?_⟩
  rfl

end Engine
end AccessControl
