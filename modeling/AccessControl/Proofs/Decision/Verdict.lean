import AccessControl.Proofs.Decision.Authorize

/-! # Decisions before and after a change

Without faults the stores alone decide what an engine answers. So a change of the stores that the
search does not see leaves the decision as it is, down to the policy that is named in it.
-/
namespace AccessControl

def World.after (w : World) (c : StoreCall) : World := { w with stores := w.stores.after c }

namespace AccessRequest

variable {s s' : Stores} {r : AccessRequest} {id : GroupId}

/-- The subject has the right that is asked for, or inherits it from a group. -/
def Entitled (r : AccessRequest) (s : Stores) : Prop :=
  r.Holds s.policies r.subject ∨
    ∃ g, s.groups.Inherits r.subject g ∧ r.Holds s.policies (Group.principal g)

/-- A decision asks nothing of a group that is not its subject and that its subject does not inherit
from. -/
theorem firstMatch_of_unreached (h : s.Sound) (h' : s'.Sound)
    (hsubject : r.subject ≠ Group.principal id) (hinherits : ¬s.groups.Inherits r.subject id)
    (hparents : ∀ p, p ≠ id → s'.groups.parentOf p = s.groups.parentOf p)
    (hmembers : ∀ member g, member ∈ s'.groups.membersOf g ↔ member ∈ s.groups.membersOf g)
    (hgrants : ∀ holder, holder ≠ Group.principal id →
      s'.policies.granting? (r.right holder) = s.policies.granting? (r.right holder)) :
    r.firstMatch s' = r.firstMatch s := by
  have hreached : ∀ p, r.subject = Group.principal p ∨ s.groups.Inherits r.subject p → p ≠ id := by
    rintro p (hp | hp) rfl
    · exact hsubject hp
    · exact hinherits hp
  have hinherited := h.groups.inheritedBy_congr h'.groups (fun _ => hmembers r.subject.id)
    fun p hp => hparents p (hreached p hp)
  refine firstMatch_congr h hinherited (hgrants _ hsubject) fun g hg => hgrants _ ?_
  intro he
  cases he
  exact hinherits hg

end AccessRequest

namespace Engine

variable {e : Engine} {r : AccessRequest} {w w' : World} {k : Conditions} {ctx : Context}
  {d : Decision}

def verdict (e : Engine) (r : AccessRequest) (w : World) : Option (Result Decision) :=
  (e.authorize .calm .background r w).1

theorem verdict_eq (h : w.stores.Sound) (e : Engine) (r : AccessRequest) : e.verdict r w =
    some (if e.decisionTimeout = some 0 then .error .deadlineExceeded
      else .ok (r.firstMatch w.stores)) := by
  by_cases hlimit : e.decisionTimeout = some 0
  · rw [verdict, authorize_calm_zero hlimit, if_pos hlimit]
  · rw [verdict, (authorize_calm hlimit h r).1, if_neg hlimit]

theorem verdict_congr (h : w.stores.Sound) (h' : w'.stores.Sound)
    (hmatch : r.firstMatch w'.stores = r.firstMatch w.stores) (e : Engine) :
    e.verdict r w' = e.verdict r w := by
  rw [verdict_eq h', verdict_eq h, hmatch]

theorem exists_verdict (h : w.stores.Sound) (hlimit : e.decisionTimeout ≠ some 0)
    (r : AccessRequest) :
    ∃ d, e.verdict r w = some (.ok d) :=
  ⟨_, by rw [verdict_eq h, if_neg hlimit]⟩

def Allows (e : Engine) (r : AccessRequest) (w : World) : Prop :=
  ∃ g, e.verdict r w = some (.ok (.allow g))

def Denies (e : Engine) (r : AccessRequest) (w : World) : Prop := e.verdict r w = some (.ok .deny)

theorem allows_iff (h : w.stores.Sound) :
    e.Allows r w ↔ e.decisionTimeout ≠ some 0 ∧ r.Entitled w.stores := by
  rw [Allows, verdict_eq h, AccessRequest.Entitled, ← r.firstMatch_isAllowed_iff h]
  by_cases hlimit : e.decisionTimeout = some 0
  · simp [hlimit]
  · cases r.firstMatch w.stores <;> simp [hlimit, Decision.isAllowed]

theorem denies_iff (h : w.stores.Sound) :
    e.Denies r w ↔ e.decisionTimeout ≠ some 0 ∧ ¬r.Entitled w.stores := by
  rw [Denies, verdict_eq h, AccessRequest.Entitled, ← r.firstMatch_isAllowed_iff h]
  by_cases hlimit : e.decisionTimeout = some 0
  · simp [hlimit]
  · cases r.firstMatch w.stores <;> simp [hlimit, Decision.isAllowed]

/-- Whatever was in the way of an engine, a decision that it comes to is the first match. -/
theorem eq_firstMatch_of_authorize (hk : ∀ n c, (k.schedule n c).Honest c) (h : w.stores.Sound)
    (hd : (e.authorize k ctx r w).1 = some (.ok d)) : d = r.firstMatch w.stores := by
  rw [authorize_cases e ctx r hk h] at hd
  cases hblocked : k.blocked (e.effective ctx w.now) w.calls w.now (r.decision.calls w.stores) with
  | none =>
    rw [hblocked] at hd
    cases hd
    rfl
  | some found =>
    obtain ⟨served, o⟩ := found
    rw [hblocked] at hd
    cases o <;> cases hd

end Engine
end AccessControl
