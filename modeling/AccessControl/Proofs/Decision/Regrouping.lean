import AccessControl.Proofs.Decision.Deletion
import AccessControl.Proofs.Decision.Verdict

/-! # Decisions when groups come and go

A group that was just saved lies above nobody, and neither does one that may be deleted, so its
coming and going matters only to itself. A group that is edited and stays where it is matters to
nobody, and one that is moved only to itself and to those below it.
-/
namespace AccessControl

theorem Stores.after_updateGroup (s : Stores) (g : Group) (now : Instant) :
    s.after (.updateGroup g now) = s ∨
    ∃ r, s.groups.update g now = .ok r ∧ s.after (.updateGroup g now) = { s with groups := r.2 } :=
  after_of_attempt (f := fun r : Group × GroupStore => (r.1, { s with groups := r.2 })) rfl

namespace AccessRequest

variable {s : Stores} {r : AccessRequest} {g : Group} {id : GroupId} {groups : GroupStore}

theorem firstMatch_saveGroup (h : s.Sound) (hr : r.subject ≠ Group.principal g.id) :
    r.firstMatch (s.after (.saveGroup g)) = r.firstMatch s := by
  have h' := h.after (.saveGroup g)
  rcases Stores.after_of_attempt (s := s) (c := .saveGroup g) rfl with he | ⟨groups, hsave, he⟩
  · rw [he]
  · rw [he] at h' ⊢
    obtain ⟨_, hnew, _⟩ := GroupStore.save_eq_ok_iff.1 hsave
    have hbare : s.groups.Bare g.id := h.groups.bare_of_missing hnew
    refine firstMatch_of_unreached h h' hr (hbare.not_inherits _) ?_ ?_ fun _ _ => rfl
    · exact fun p hp => GroupStore.parentOf_save hsave hp
    · intro member p
      rw [GroupStore.membersOf_save hsave]

/-- It does not matter what becomes of the policies of a group that is deleted. -/
theorem firstMatch_of_deleted {policies : PolicyStore} (h : s.Sound)
    (h' : Stores.Sound ⟨groups, policies, s.keys⟩) (hr : r.subject ≠ Group.principal id)
    (hdelete : s.groups.delete id = .ok groups) (hgrants : ∀ holder, holder ≠ Group.principal id →
      policies.granting? (r.right holder) = s.policies.granting? (r.right holder)) :
    r.firstMatch ⟨groups, policies, s.keys⟩ = r.firstMatch s := by
  have hbare : s.groups.Bare id := h.groups.bare_of_delete hdelete
  refine firstMatch_of_unreached h h' hr (hbare.not_inherits _) ?_ ?_ hgrants
  · exact fun p hp => GroupStore.parentOf_delete hdelete hp
  · intro member p
    rw [GroupStore.membersOf_delete hdelete]

theorem firstMatch_deleteGroup (h : s.Sound) (hr : r.subject ≠ Group.principal id) :
    r.firstMatch (s.after (.deleteGroup id)) = r.firstMatch s := by
  have h' := h.after (.deleteGroup id)
  rcases Stores.after_of_attempt (s := s) (c := .deleteGroup id) rfl with he | ⟨groups, hdelete, he⟩
  · rw [he]
  · rw [he] at h' ⊢
    exact firstMatch_of_deleted h h' hr hdelete fun _ _ => rfl

/-- However much of a deletion is done, and whether or not its caller hears of it. -/
theorem firstMatch_engine_deleteGroup {w : World} (h : w.stores.Sound)
    (hr : r.subject ≠ Group.principal id) (k : Conditions) (ctx : Context) :
    r.firstMatch (Engine.deleteGroup k ctx id w).2.stores = r.firstMatch w.stores := by
  have h' := sound_deleteGroup h k ctx id
  rcases deleteGroup_cases k ctx id w with ⟨he, -⟩ | ⟨groups, hdelete, ⟨he, -⟩ | ⟨he, -⟩⟩
  · rw [he]
  · rw [he] at h' ⊢
    exact firstMatch_of_deleted h h' hr hdelete fun _ _ => rfl
  · rw [he] at h' ⊢
    refine firstMatch_of_deleted h h' hr hdelete fun holder hholder => ?_
    refine h.policies.granting?_congr h'.policies.toCatalogued fun i p hp => ?_
    rw [h.policies.get?_removeHeldBy, and_iff_left]
    rw [Policy.holder, hp]
    exact hholder

theorem firstMatch_updateGroup (h : s.Sound) (hr : r.subject ≠ Group.principal g.id)
    (hbelow : ¬s.groups.Inherits r.subject g.id) (now : Instant) :
    r.firstMatch (s.after (.updateGroup g now)) = r.firstMatch s := by
  have h' := h.after (.updateGroup g now)
  rcases s.after_updateGroup g now with he | ⟨updated, hupdate, he⟩
  · rw [he]
  · rw [he] at h' ⊢
    refine firstMatch_of_unreached h h' hr hbelow ?_ ?_ fun _ _ => rfl
    · exact fun p hp => GroupStore.parentOf_update hupdate hp
    · intro member p
      rw [GroupStore.membersOf_update hupdate]

/-- An update that leaves a group under its parent matters to no request. -/
theorem firstMatch_updateGroup_in_place (h : s.Sound) (hparent : s.groups.parentOf g.id = g.parent)
    (now : Instant) :
    r.firstMatch (s.after (.updateGroup g now)) = r.firstMatch s := by
  have h' := h.after (.updateGroup g now)
  rcases s.after_updateGroup g now with he | ⟨updated, hupdate, he⟩
  · rw [he]
  · rw [he] at h' ⊢
    have hparents : ∀ p, updated.2.parentOf p = s.groups.parentOf p := by
      intro p
      by_cases hp : p = g.id
      · rw [hp, GroupStore.parentOf_update_self hupdate, hparent]
      · exact GroupStore.parentOf_update hupdate hp
    have hinherited : updated.2.inheritedBy r.subject = s.groups.inheritedBy r.subject := by
      refine h.groups.inheritedBy_congr h'.groups (fun _ p => ?_) fun p _ => hparents p
      rw [GroupStore.membersOf_update hupdate]
    exact firstMatch_congr h hinherited rfl fun _ _ => rfl

end AccessRequest

namespace Engine

/-- After every run of the stores: whoever is not the group itself is decided as before when a group
is saved, when it is deleted, alone or with its policies and under whatever conditions, and when it
is edited where it is. When it is moved, so is everybody who neither is the group nor inherits from
it. -/
theorem decision_kept_by_regrouping (calls : List StoreCall) (now : Millis) (started : Nat)
    (e : Engine) (r : AccessRequest) :
    let w : World := ⟨Stores.empty.afterAll calls, now, started⟩
    (∀ g : Group, r.subject ≠ Group.principal g.id →
      e.verdict r (w.after (.saveGroup g)) = e.verdict r w) ∧
    (∀ id, r.subject ≠ Group.principal id →
      e.verdict r (w.after (.deleteGroup id)) = e.verdict r w ∧
      ∀ k ctx, e.verdict r (Engine.deleteGroup k ctx id w).2 = e.verdict r w) ∧
    (∀ g at', w.stores.groups.parentOf g.id = g.parent →
      e.verdict r (w.after (.updateGroup g at')) = e.verdict r w) ∧
    (∀ g at', r.subject ≠ Group.principal g.id → ¬w.stores.groups.Inherits r.subject g.id →
      e.verdict r (w.after (.updateGroup g at')) = e.verdict r w) ∧
    (e.decisionTimeout ≠ some 0 → ∃ d, e.verdict r w = some (.ok d)) := by
  intro w
  have h : w.stores.Sound := Stores.sound_afterAll calls
  have hafter : ∀ c, (w.after c).stores.Sound := fun c => h.after c
  refine ⟨fun g hr => ?_, fun id hr => ⟨?_, fun k ctx => ?_⟩, fun g at' hparent => ?_,
    fun g at' hr hbelow => ?_, fun hlimit => exists_verdict h hlimit r⟩
  · exact verdict_congr h (hafter _) (AccessRequest.firstMatch_saveGroup h hr) e
  · exact verdict_congr h (hafter _) (AccessRequest.firstMatch_deleteGroup h hr) e
  · have hmatch := AccessRequest.firstMatch_engine_deleteGroup h hr k ctx
    exact verdict_congr h (sound_deleteGroup h k ctx id) hmatch e
  · exact verdict_congr h (hafter _) (AccessRequest.firstMatch_updateGroup_in_place h hparent at') e
  · exact verdict_congr h (hafter _) (AccessRequest.firstMatch_updateGroup h hr hbelow at') e

end Engine
end AccessControl
