import AccessControl.Proofs.Decision.Verdict
import AccessControl.Proofs.PolicyStore.Changes

/-! # Granting more and granting less

A new policy or membership can only allow more, and one that is taken away can only allow less. A
policy matters to requests for its own right alone, and a membership to requests of its own member.
-/
namespace AccessControl

theorem GroupStore.IsAbove.congr {s s' : GroupStore} {p c : GroupId} (h : s.IsAbove p c)
    (hparents : ∀ q, s'.parentOf q = s.parentOf q) : s'.IsAbove p c :=
  Relation.TransGen.mono (fun a _ hab => (hparents a).trans hab) _ _ h

namespace Stores

variable {s s' : Stores} {r : AccessRequest}

structure Within (s s' : Stores) : Prop where
  policies : ∀ {id p}, s.policies.policies.get? id = some p → s'.policies.policies.get? id = some p
  members : ∀ {member g}, member ∈ s.groups.membersOf g → member ∈ s'.groups.membersOf g
  parents : ∀ p, s'.groups.parentOf p = s.groups.parentOf p

theorem Within.refl (s : Stores) : s.Within s := ⟨id, id, fun _ => rfl⟩

/-- Where the other stores keep all members and the same hierarchy, whatever is inherited is
inherited there too. -/
theorem Within.inherits (h : s.Within s') {subject : Principal} {g : GroupId}
    (hg : s.groups.Inherits subject g) : s'.groups.Inherits subject g := by
  have hseeds :
      (∃ seed, subject.id ∈ s.groups.membersOf seed ∧ (g = seed ∨ s.groups.IsAbove g seed)) →
      ∃ seed, subject.id ∈ s'.groups.membersOf seed ∧ (g = seed ∨ s'.groups.IsAbove g seed) := by
    rintro ⟨seed, hseed, hg⟩
    exact ⟨seed, h.members hseed, hg.imp_right fun habove => habove.congr h.parents⟩
  unfold GroupStore.Inherits at hg ⊢
  cases hkind : subject.kind with
  | group =>
    rw [hkind] at hg
    exact GroupStore.IsAbove.congr hg h.parents
  | user =>
    rw [hkind] at hg
    exact hseeds hg
  | thing =>
    rw [hkind] at hg
    exact hseeds hg

/-- More policies and more members entitle to no less. -/
theorem Within.entitled (h : s.Within s') (hr : r.Entitled s) : r.Entitled s' := by
  have hholds : ∀ {holder}, r.Holds s.policies holder → r.Holds s'.policies holder := by
    rintro holder ⟨id, p, hp, hright⟩
    exact ⟨id, p, h.policies hp, hright⟩
  rcases hr with hdirect | ⟨g, hg, hheld⟩
  · exact .inl (hholds hdirect)
  · exact .inr ⟨g, h.inherits hg, hholds hheld⟩

theorem within_savePolicy (s : Stores) (p : Policy) : s.Within (s.after (.savePolicy p)) := by
  rcases after_of_attempt (s := s) (c := .savePolicy p) rfl with he | ⟨_, hsave, he⟩
  · rw [he]
    exact .refl s
  · rw [he]
    exact ⟨fun hq => (PolicyStore.get?_policies_save hsave).2 (.inr hq), id, fun _ => rfl⟩

theorem within_assign (s : Stores) (member : String) (g : GroupId) :
    s.Within (s.after (.assign member g)) := by
  rcases after_of_attempt (s := s) (c := .assign member g) rfl with he | ⟨_, hassign, he⟩
  · rw [he]
    exact .refl s
  · rw [he]
    exact ⟨id, fun hu => (GroupStore.mem_membersOf_assign hassign).2 (.inr hu),
      GroupStore.parentOf_assign hassign⟩

theorem Sound.removePolicy_within (h : s.Sound) (p : Policy) :
    (s.after (.removePolicy p)).Within s := by
  rcases after_of_attempt (s := s) (c := .removePolicy p) rfl with he | ⟨_, hremove, he⟩
  · rw [he]
    exact .refl s
  · rw [he]
    exact ⟨fun hq => ((h.policies.get?_policies_remove hremove).1 hq).1, id, fun _ => rfl⟩

theorem Sound.removePolicies_within (h : s.Sound) (holder : Principal) :
    (s.after (.removePolicies holder)).Within s :=
  ⟨fun hq => (h.policies.get?_removeHeldBy.1 hq).1, id, fun _ => rfl⟩

theorem unassign_within (s : Stores) (member : String) (g : GroupId) :
    (s.after (.unassign member g)).Within s := by
  rcases after_of_attempt (s := s) (c := .unassign member g) rfl with he | ⟨_, hunassign, he⟩
  · rw [he]
    exact .refl s
  · rw [he]
    exact ⟨id, fun hu => ((GroupStore.mem_membersOf_unassign hunassign).1 hu).1,
      fun p => (GroupStore.parentOf_unassign hunassign p).symm⟩

end Stores

namespace AccessRequest

variable {s s' : Stores} {r : AccessRequest} {p : Policy} {member : String}

theorem firstMatch_of_other_rights (h : s.Sound) (h' : s'.Sound) (hgroups : s'.groups = s.groups)
    (hsame : ∀ id q, q.object = r.object → q.action = r.action →
      (s'.policies.policies.get? id = some q ↔ s.policies.policies.get? id = some q)) :
    r.firstMatch s' = r.firstMatch s := by
  have hgrants :
      ∀ holder, s'.policies.granting? (r.right holder) = s.policies.granting? (r.right holder) := by
    intro holder
    refine h.policies.granting?_congr h'.policies.toCatalogued fun id q hq => hsame id q ?_ ?_
    · rw [Policy.object, hq, right]
    · rw [Policy.action, hq, right]
  exact firstMatch_congr h (by rw [hgroups]) (hgrants _) fun g _ => hgrants _

theorem firstMatch_of_other_member (h : s.Sound) (h' : s'.Sound)
    (hpolicies : s'.policies = s.policies)
    (hparents : ∀ p, s'.groups.parentOf p = s.groups.parentOf p)
    (hmembers : r.subject.kind ≠ .group →
      ∀ g, r.subject.id ∈ s'.groups.membersOf g ↔ r.subject.id ∈ s.groups.membersOf g) :
    r.firstMatch s' = r.firstMatch s := by
  have hinherited := h.groups.inheritedBy_congr h'.groups hmembers fun p _ => hparents p
  exact firstMatch_congr h hinherited (by rw [hpolicies]) fun g _ => by rw [hpolicies]

theorem firstMatch_savePolicy (h : s.Sound) (hp : p.object ≠ r.object ∨ p.action ≠ r.action) :
    r.firstMatch (s.after (.savePolicy p)) = r.firstMatch s := by
  rcases Stores.after_of_attempt (s := s) (c := .savePolicy p) rfl with he | ⟨_, hsave, he⟩
  · rw [he]
  · refine firstMatch_of_other_rights h (h.after _) (by rw [he]) fun id q hobject haction => ?_
    rw [he, PolicyStore.get?_policies_save hsave, or_iff_right]
    rintro ⟨-, rfl⟩
    exact hp.elim (absurd hobject) (absurd haction)

theorem firstMatch_removePolicy (h : s.Sound) (hp : p.object ≠ r.object ∨ p.action ≠ r.action) :
    r.firstMatch (s.after (.removePolicy p)) = r.firstMatch s := by
  rcases Stores.after_of_attempt (s := s) (c := .removePolicy p) rfl with he | ⟨_, hremove, he⟩
  · rw [he]
  · refine firstMatch_of_other_rights h (h.after _) (by rw [he]) fun id q hobject haction => ?_
    rw [he, h.policies.get?_policies_remove hremove, and_iff_left]
    intro hright
    have hobject' : p.object = r.object := by rw [← hobject, Policy.object, ← hright, Policy.object]
    have haction' : p.action = r.action := by rw [← haction, Policy.action, ← hright, Policy.action]
    exact hp.elim (absurd hobject') (absurd haction')

theorem firstMatch_assign (h : s.Sound) (hr : r.subject.kind = .group ∨ r.subject.id ≠ member)
    (g : GroupId) :
    r.firstMatch (s.after (.assign member g)) = r.firstMatch s := by
  rcases Stores.after_of_attempt (s := s) (c := .assign member g) rfl with he | ⟨_, hassign, he⟩
  · rw [he]
  · have hparents := GroupStore.parentOf_assign hassign
    refine firstMatch_of_other_member h (h.after _) (by rw [he]) (by rwa [he]) fun hkind j => ?_
    rw [he, GroupStore.mem_membersOf_assign hassign, or_iff_right]
    rintro ⟨-, hmember⟩
    exact hr.elim hkind (absurd hmember)

/-- To strike somebody off matters to no request of a group, nor to one of somebody else. -/
theorem firstMatch_unassign (h : s.Sound) (hr : r.subject.kind = .group ∨ r.subject.id ≠ member)
    (g : GroupId) :
    r.firstMatch (s.after (.unassign member g)) = r.firstMatch s := by
  rcases Stores.after_of_attempt (s := s) (c := .unassign member g) rfl with he | ⟨_, hunassign, he⟩
  · rw [he]
  · have hparents := GroupStore.parentOf_unassign hunassign
    refine firstMatch_of_other_member h (h.after _) (by rw [he]) (by rwa [he]) fun hkind j => ?_
    rw [he, GroupStore.mem_membersOf_unassign hunassign, and_iff_left]
    rintro ⟨-, hmember⟩
    exact hr.elim hkind (absurd hmember)

end AccessRequest

namespace Engine

variable {e : Engine} {r : AccessRequest} {w w' : World}

theorem Allows.mono (h : w.stores.Sound) (h' : w'.stores.Sound)
    (hwithin : w.stores.Within w'.stores) (hr : e.Allows r w) : e.Allows r w' := by
  rw [allows_iff h] at hr
  exact (allows_iff h').2 ⟨hr.1, hwithin.entitled hr.2⟩

theorem Denies.anti (h : w.stores.Sound) (h' : w'.stores.Sound)
    (hwithin : w'.stores.Within w.stores) (hr : e.Denies r w) : e.Denies r w' := by
  rw [denies_iff h] at hr
  exact (denies_iff h').2 ⟨hr.1, fun hentitled => hr.2 (hwithin.entitled hentitled)⟩

/-- After every run of the stores, a request that is allowed stays so when a policy or a membership
is added, and one that is denied stays so when policies or a membership are taken away. A policy on
another object or for another action leaves the decision as it is, and so does a membership of
somebody else, or any membership when a group asks. -/
theorem decision_monotone_local (calls : List StoreCall) (now : Millis) (started : Nat) (e : Engine)
    (r : AccessRequest) :
    let w : World := ⟨Stores.empty.afterAll calls, now, started⟩
    (e.Allows r w → (∀ p, e.Allows r (w.after (.savePolicy p))) ∧
      ∀ member g, e.Allows r (w.after (.assign member g))) ∧
    (e.Denies r w → (∀ p, e.Denies r (w.after (.removePolicy p))) ∧
      (∀ holder, e.Denies r (w.after (.removePolicies holder))) ∧
      ∀ member g, e.Denies r (w.after (.unassign member g))) ∧
    (∀ p : Policy, p.object ≠ r.object ∨ p.action ≠ r.action →
      e.verdict r (w.after (.savePolicy p)) = e.verdict r w ∧
      e.verdict r (w.after (.removePolicy p)) = e.verdict r w) ∧
    (∀ member, r.subject.kind = .group ∨ r.subject.id ≠ member → ∀ g,
      e.verdict r (w.after (.assign member g)) = e.verdict r w ∧
      e.verdict r (w.after (.unassign member g)) = e.verdict r w) ∧
    (e.decisionTimeout ≠ some 0 → e.Allows r w ∨ e.Denies r w) := by
  intro w
  have h : w.stores.Sound := Stores.sound_afterAll calls
  have hafter : ∀ c, (w.after c).stores.Sound := fun c => h.after c
  refine ⟨fun hr => ⟨?_, ?_⟩, fun hr => ⟨?_, ?_, ?_⟩, fun p hp => ⟨?_, ?_⟩,
    fun member hr g => ⟨?_, ?_⟩, ?_⟩
  · exact fun p => hr.mono h (hafter _) (Stores.within_savePolicy _ p)
  · exact fun member g => hr.mono h (hafter _) (Stores.within_assign _ member g)
  · exact fun p => hr.anti h (hafter _) (h.removePolicy_within p)
  · exact fun holder => hr.anti h (hafter _) (h.removePolicies_within holder)
  · exact fun member g => hr.anti h (hafter _) (Stores.unassign_within _ member g)
  · exact verdict_congr h (hafter _) (AccessRequest.firstMatch_savePolicy h hp) e
  · exact verdict_congr h (hafter _) (AccessRequest.firstMatch_removePolicy h hp) e
  · exact verdict_congr h (hafter _) (AccessRequest.firstMatch_assign h hr g) e
  · exact verdict_congr h (hafter _) (AccessRequest.firstMatch_unassign h hr g) e
  · intro hlimit
    obtain ⟨d, hd⟩ := exists_verdict h hlimit r
    cases d with
    | allow g => exact .inl ⟨g, hd⟩
    | deny => exact .inr hd

end Engine
end AccessControl
