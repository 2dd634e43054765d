import AccessControl.Proofs.Decision.Deletion
import AccessControl.Proofs.Decision.Verdict
import AccessControl.Proofs.PolicyStore.Changes

/-! # Deleted groups do not get their rights back

A deletion takes all policies of a group away, and only a new policy can give it a right again. So a
group that is saved under the same identifier starts with nothing, wherever it is put and whoever
joins it.
-/
namespace AccessControl

def PolicyStore.HasNothing (s : PolicyStore) (holder : Principal) : Prop :=
  ∀ id p, s.policies.get? id = some p → p.holder ≠ holder

inductive Step where
  | call (c : StoreCall)
  | deleteGroup (ctx : Context) (id : GroupId)
  | authorize (e : Engine) (ctx : Context) (r : AccessRequest)

namespace World

variable {w : World} {a : Step} {holder : Principal}

def step (w : World) : Step → World
  | .call c => w.after c
  | .deleteGroup ctx id => (Engine.deleteGroup .calm ctx id w).2
  | .authorize e ctx r => (e.authorize .calm ctx r w).2

def steps (w : World) (run : List Step) : World := run.foldl step w

def Grants (w : World) (holder : Principal) (a : Step) : Prop :=
  ∃ p, a = .call (.savePolicy p) ∧ p.holder = holder ∧
    ∃ served, w.stores.serve (.savePolicy p) = .ok served

def GrantsIn (holder : Principal) : World → List Step → Prop
  | _, [] => False
  | w, a :: rest => w.Grants holder a ∨ GrantsIn holder (w.step a) rest

theorem sound_step (h : w.stores.Sound) (a : Step) : (w.step a).stores.Sound := by
  cases a with
  | call c => exact h.after c
  | deleteGroup ctx id => exact sound_deleteGroup h .calm ctx id
  | authorize e ctx r =>
    rw [step, e.authorize_stores]
    exact h

theorem sound_steps (h : w.stores.Sound) (run : List Step) : (w.steps run).stores.Sound := by
  induction run generalizing w with
  | nil => exact h
  | cons a rest ih => exact ih (sound_step h a)

/-- A step gives nothing to a holder unless it saves a policy for it. -/
theorem hasNothing_step (h : w.stores.Sound) (hnothing : w.stores.policies.HasNothing holder)
    (hnot : ¬w.Grants holder a) : (w.step a).stores.policies.HasNothing holder := by
  intro id p hp
  cases a with
  | call c =>
    rcases PolicyStore.get?_policies_after h.policies hp with hp | ⟨rfl, hserved⟩
    · exact hnothing id p hp
    · exact fun hholder => hnot ⟨p, rfl, hholder, hserved⟩
  | deleteGroup ctx g =>
    rw [step] at hp
    rcases deleteGroup_cases .calm ctx g w with ⟨he, -⟩ | ⟨groups, -, ⟨he, -⟩ | ⟨he, -⟩⟩
    · rw [he] at hp
      exact hnothing id p hp
    · rw [he] at hp
      exact hnothing id p hp
    · rw [he] at hp
      exact hnothing id p (h.policies.get?_removeHeldBy.1 hp).1
  | authorize e ctx r =>
    rw [step, e.authorize_stores] at hp
    exact hnothing id p hp

theorem hasNothing_steps (h : w.stores.Sound) (hnothing : w.stores.policies.HasNothing holder)
    {run : List Step} (hnot : ¬GrantsIn holder w run) :
    (w.steps run).stores.policies.HasNothing holder := by
  induction run generalizing w with
  | nil => exact hnothing
  | cons a rest ih =>
    obtain ⟨hstep, hrest⟩ := not_or.1 hnot
    exact ih (sound_step h a) (hasNothing_step h hnothing hstep) hrest

end World

namespace Engine

variable {w : World} {e : Engine} {ctx : Context} {r : AccessRequest} {grant : Grant} {g : GroupId}
  {n : Nat}

/-- What an engine deletes has nothing left, and it answers how much that was. -/
theorem hasNothing_of_deleteGroup (h : w.stores.Sound)
    (hdeleted : (deleteGroup .calm ctx g w).1 = some (.ok n)) :
    (n = w.stores.policies.policies.values.countP fun p => p.holder = Group.principal g) ∧
    (deleteGroup .calm ctx g w).2.stores.policies.HasNothing (Group.principal g) := by
  rcases deleteGroup_cases .calm ctx g w with
    ⟨-, hfailed⟩ | ⟨groups, -, ⟨-, hfailed⟩ | ⟨he, hanswer⟩⟩
  · exact absurd hdeleted (hfailed n)
  · exact absurd hdeleted (hfailed n)
  · cases hdeleted.symm.trans hanswer
    refine ⟨h.policies.removeHeldBy_fst _, ?_⟩
    intro id p hp
    rw [he] at hp
    exact (h.policies.get?_removeHeldBy.1 hp).2

/-- A request is allowed by a stored policy that gives its right to the subject or to the group that
is named. -/
theorem granted_of_authorize (h : w.stores.Sound)
    (hallow : (e.authorize .calm ctx r w).1 = some (.ok (.allow grant))) :
    ∃ p, w.stores.policies.policies.get? grant.policyId = some p ∧
      p.right = r.right (grant.holder r.subject) :=
  AccessRequest.granted_of_firstMatch h
    (eq_firstMatch_of_authorize Conditions.honest_calm h hallow).symm

/-- Whatever was done before an engine deletes a group, it answers how many policies the group had.
Whatever is done then, until a policy is saved for the group: no request is allowed by a policy of
the group, neither its own nor that of anybody below it. -/
theorem deleted_group_grants_nothing (before : List Step) (now : Millis) (started : Nat)
    (ctx : Context) (g : GroupId) (n : Nat) (later : List Step)
    (hdeleted : (deleteGroup .calm ctx g (World.steps ⟨.empty, now, started⟩ before)).1 =
      some (.ok n)) :
    let w := World.steps ⟨.empty, now, started⟩ before
    let deleted := (deleteGroup .calm ctx g w).2
    let final := deleted.steps later
    (n = w.stores.policies.policies.values.countP fun p => p.holder = Group.principal g) ∧
    (¬World.GrantsIn (Group.principal g) deleted later → ∀ (e : Engine) ctx r grant,
      (e.authorize .calm ctx r final).1 = some (.ok (.allow grant)) →
      (∃ p, final.stores.policies.policies.get? grant.policyId = some p ∧
        p.holder ≠ Group.principal g) ∧
      (∀ id, grant ≠ .viaGroup g id) ∧
        (r.subject = Group.principal g → ∀ id, grant ≠ .direct id)) := by
  intro w deleted final
  have hsound : w.stores.Sound := World.sound_steps (Stores.sound_afterAll []) before
  obtain ⟨hcount, hnothing⟩ := hasNothing_of_deleteGroup hsound hdeleted
  refine ⟨hcount, ?_⟩
  intro hnot e ctx' r grant hallow
  have hsound' : deleted.stores.Sound := World.sound_step hsound (.deleteGroup ctx g)
  have hfinal : final.stores.policies.HasNothing (Group.principal g) :=
    World.hasNothing_steps hsound' hnothing hnot
  obtain ⟨p, hp, hright⟩ := granted_of_authorize (World.sound_steps hsound' later) hallow
  have hholder : p.holder = grant.holder r.subject := by rw [Policy.holder, hright]; rfl
  have hother := hfinal _ p hp
  refine ⟨⟨p, hp, hother⟩, ?_, ?_⟩
  · rintro id rfl
    exact hother hholder
  · rintro hsubject id rfl
    exact hother (hholder.trans hsubject)

def sampleReturn : List Step :=
  [.call (.saveGroup ⟨"ops", "root", none, "Operations", "", [], ⟨0, 0⟩, ⟨0, 0⟩⟩),
    .call (.assign "ann" "ops")]

theorem publishers_return_with_nothing :
    let w := World.steps ⟨.empty, 0, 0⟩ (samplePublishers.map .call)
    let deletion := deleteGroup .calm .background "ops" w
    deletion.1 = some (.ok 1) ∧ ¬World.GrantsIn (Group.principal "ops") deletion.2 sampleReturn ∧
    ∀ (e : Engine) ctx id, (e.authorize .calm ctx sampleRequest (deletion.2.steps sampleReturn)).1 ≠
      some (.ok (.allow (.viaGroup "ops" id))) := by
  intro w deletion
  have hdeleted : deletion.1 = some (.ok 1) := by decide
  have hnot : ¬World.GrantsIn (Group.principal "ops") deletion.2 sampleReturn := by
    rintro (⟨_, ⟨⟩, -⟩ | ⟨_, ⟨⟩, -⟩ | hnever)
    exact hnever
  obtain ⟨-, hnothing⟩ :=
    deleted_group_grants_nothing _ 0 0 .background "ops" 1 sampleReturn hdeleted
  exact ⟨hdeleted, hnot, fun e ctx id hallow =>
    (hnothing hnot e ctx sampleRequest _ hallow).2.1 id rfl⟩

end Engine
end AccessControl
