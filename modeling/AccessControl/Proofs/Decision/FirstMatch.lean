import AccessControl.Proofs.Decision.Inheritance
import AccessControl.Proofs.Program.Faults

/-! # Decisions as a search

A decision is the first match of a search through all stored policies: for the subject itself, and
then for the groups that it inherits from, one after another.
-/
namespace AccessControl

def Grant.holder (subject : Principal) : Grant → Principal
  | direct _ => subject
  | viaGroup g _ => Group.principal g

namespace AccessRequest

variable {s : Stores} {r : AccessRequest}

def right (r : AccessRequest) (holder : Principal) : Right := ⟨holder, r.object, r.action⟩

def grantOf (r : AccessRequest) (s : PolicyStore) (g : GroupId) : Option Grant :=
  (s.granting? (r.right (Group.principal g))).map (.viaGroup g)

def firstMatch (r : AccessRequest) (s : Stores) : Decision :=
  match s.policies.granting? (r.right r.subject) with
  | some id => .allow (.direct id)
  | none => ((s.groups.inheritedBy r.subject).findSome? (r.grantOf s.policies)).elim .deny .allow

def Holds (r : AccessRequest) (s : PolicyStore) (holder : Principal) : Prop :=
  ∃ id p, s.policies.get? id = some p ∧ p.right = r.right holder

/-- The search looks at no policies but those of the subject and of the groups that it inherits
from. -/
theorem firstMatch_congr {s' : Stores} (h : s.Sound)
    (hinherited : s'.groups.inheritedBy r.subject = s.groups.inheritedBy r.subject)
    (hsubject : s'.policies.granting? (r.right r.subject) =
      s.policies.granting? (r.right r.subject)) (hgroups : ∀ g, s.groups.Inherits r.subject g →
      s'.policies.granting? (r.right (Group.principal g)) =
        s.policies.granting? (r.right (Group.principal g))) :
    r.firstMatch s' = r.firstMatch s := by
  have hgrants : (s.groups.inheritedBy r.subject).map (r.grantOf s'.policies) =
      (s.groups.inheritedBy r.subject).map (r.grantOf s.policies) := by
    refine List.map_congr_left fun g hg => ?_
    rw [grantOf, hgroups g (h.groups.mem_inheritedBy_iff.1 hg), grantOf]
  have hfound : (s.groups.inheritedBy r.subject).findSome? (r.grantOf s'.policies) =
      (s.groups.inheritedBy r.subject).findSome? (r.grantOf s.policies) := by
    have hsame := congrArg (List.findSome? id) hgrants
    rwa [List.findSome?_map, List.findSome?_map] at hsame
  rw [firstMatch, hsubject, hinherited, hfound, firstMatch]

theorem answer_lookFor (h : s.Sound) (r : AccessRequest) (holder : Principal) :
    (r.lookFor holder).answer s.reply = .ok (s.policies.granting? (r.right holder)) := by
  have hgrant := h.policies.grantFor_retrieve holder r.object r.action
  rw [right, ← hgrant]
  rfl

theorem answer_searchGroups (h : s.Sound) (r : AccessRequest) (gs : List GroupId) :
    (r.searchGroups gs).answer s.reply =
      .ok ((gs.findSome? (r.grantOf s.policies)).elim .deny .allow) := by
  induction gs with
  | nil => rfl
  | cons g rest ih =>
    rw [searchGroups, Program.answer_bind, answer_lookFor h, List.findSome?_cons, grantOf]
    cases hg : s.policies.granting? (r.right (Group.principal g)) with
    | some id => rfl
    | none => exact ih

theorem answer_decision (h : s.Sound) (r : AccessRequest) :
    r.decision.answer s.reply = .ok (r.firstMatch s) := by
  rw [decision, Program.answer_bind, answer_lookFor h, firstMatch]
  cases hsubject : s.policies.granting? (r.right r.subject) with
  | some id => rfl
  | none =>
    have hgroups := answer_searchGroups h r (s.groups.inheritedBy r.subject)
    have hbind : (inheritedGroups r.subject >>= r.searchGroups).answer s.reply =
        (r.searchGroups (s.groups.inheritedBy r.subject)).answer s.reply := by
      rw [Program.answer_bind, answer_inheritedGroups h]
      rfl
    exact hbind.trans hgroups

theorem lookFor_strict (r : AccessRequest) (holder : Principal) :
    (r.lookFor holder).Strict fun c => c.isQuery = true :=
  Program.Strict.bind (.ask rfl) fun _ => .done _

/-- Climbing asks queries only, and gives up at every failure but that of a missing group. -/
theorem climb_strict (found seeds : List GroupId) :
    (climb found seeds).Strict fun c => c.isQuery = true := by
  induction seeds generalizing found with
  | nil => exact .done _
  | cons g seeds ih =>
    refine .call rfl ?_ ?_
    · intro e he
      cases e with
      | notFound what => cases he
      | _ => rfl
    · intro reply
      rcases reply with e | above
      · cases e with
        | notFound what => exact ih found
        | _ => exact .done _
      · exact ih _

theorem inheritedGroups_strict (subject : Principal) :
    (inheritedGroups subject).Strict fun c => c.isQuery = true := by
  unfold inheritedGroups
  cases subject.kind with
  | group => exact (climb_strict _ _).bind fun _ => .done _
  | user | thing =>
    refine .call rfl (fun _ _ => rfl) ?_
    intro reply
    rcases reply with e | seeds
    · exact .done _
    · exact climb_strict _ _

theorem searchGroups_strict (r : AccessRequest) (gs : List GroupId) :
    (r.searchGroups gs).Strict fun c => c.isQuery = true := by
  induction gs with
  | nil => exact .done _
  | cons g rest ih =>
    refine (r.lookFor_strict _).bind ?_
    intro found
    cases found with
    | some id => exact .done _
    | none => exact ih

theorem decision_strict (r : AccessRequest) : r.decision.Strict fun c => c.isQuery = true := by
  refine (r.lookFor_strict _).bind ?_
  intro found
  cases found with
  | some id => exact .done _
  | none => exact (inheritedGroups_strict _).bind r.searchGroups_strict

theorem run_decision (h : s.Sound) (r : AccessRequest) :
    r.decision.run s = (.ok (r.firstMatch s), s) := by
  rw [Program.run_eq_answer fun c hc => r.decision_strict.made_of_mem hc, answer_decision h]

theorem granting?_isSome_iff (h : s.Sound) (holder : Principal) :
    (s.policies.granting? (r.right holder)).isSome = true ↔ r.Holds s.policies holder := by
  rw [Option.isSome_iff_exists, Holds]
  simp only [h.policies.granting?_eq_some_iff]

/-- A decision to allow names a policy that is stored and gives the right to whom it should. -/
theorem granted_of_firstMatch {grant : Grant} (h : s.Sound)
    (hallow : r.firstMatch s = .allow grant) :
    ∃ p, s.policies.policies.get? grant.policyId = some p ∧
      p.right = r.right (grant.holder r.subject) := by
  rw [firstMatch] at hallow
  cases hsubject : s.policies.granting? (r.right r.subject) with
  | some id =>
    rw [hsubject] at hallow
    cases hallow
    exact h.policies.granting?_eq_some_iff.1 hsubject
  | none =>
    rw [hsubject] at hallow
    cases hfound : (s.groups.inheritedBy r.subject).findSome? (r.grantOf s.policies) with
    | none =>
      rw [hfound] at hallow
      cases hallow
    | some found =>
      rw [hfound] at hallow
      cases hallow
      obtain ⟨g, -, hgrant⟩ := List.exists_of_findSome?_eq_some hfound
      obtain ⟨id, hid, rfl⟩ := Option.map_eq_some_iff.1 hgrant
      exact h.policies.granting?_eq_some_iff.1 hid

/-- A request is allowed exactly when its subject, or a group whose rights it shares, holds a policy
for it. -/
theorem firstMatch_isAllowed_iff (h : s.Sound) (r : AccessRequest) :
    (r.firstMatch s).isAllowed = true ↔
      r.Holds s.policies r.subject ∨
      ∃ g, s.groups.Inherits r.subject g ∧ r.Holds s.policies (Group.principal g) := by
  have hgroups : ((s.groups.inheritedBy r.subject).findSome? (r.grantOf s.policies)).isSome = true ↔
      ∃ g, s.groups.Inherits r.subject g ∧ r.Holds s.policies (Group.principal g) := by
    simp only [List.findSome?_isSome_iff, grantOf, Option.isSome_map, granting?_isSome_iff h,
      h.groups.mem_inheritedBy_iff]
  rw [← hgroups, ← granting?_isSome_iff h, firstMatch]
  cases hsubject : s.policies.granting? (r.right r.subject) with
  | some id => simp [Decision.isAllowed]
  | none =>
    cases hfound : (s.groups.inheritedBy r.subject).findSome? (r.grantOf s.policies) with
    | some g => simp [Decision.isAllowed]
    | none => simp [Decision.isAllowed]

end AccessRequest
end AccessControl
